/-!
# Native Elements

The names of the elements that browsers know by themselves, by vocabulary.

* `htmlElements`, `svgElements`, `mathElements` — the three vocabularies.
* `nativeElements` — all of them. No name is in two vocabularies.
-/

namespace MarkupCompiler

/-- The elements of HTML. -/
def htmlElements : List String :=
  ["a", "abbr", "address", "area", "article", "aside", "audio", "b", "base", "bdi", "bdo",
   "blockquote", "body", "br", "button", "canvas", "caption", "cite", "code", "col", "colgroup",
   "data", "datalist", "dd", "del", "details", "dfn", "dialog", "dir", "div", "dl", "dt", "em",
   "embed", "fieldset", "figcaption", "figure", "font", "footer", "form", "frame", "frameset",
   "h1", "h2", "h3", "h4", "h5", "h6", "head", "header", "hgroup", "hr", "html", "i", "iframe",
   "img", "input", "ins", "kbd", "label", "legend", "li", "link", "main", "map", "mark",
   "marquee", "menu", "meta", "meter", "nav", "noscript", "object", "ol", "optgroup", "option",
   "output", "p", "param", "picture", "pre", "progress", "q", "rb", "rp", "rt", "rtc", "ruby",
   "s", "samp", "script", "search", "section", "select", "slot", "small", "source", "span",
   "strong", "style", "sub", "summary", "sup", "table", "tbody", "td", "template", "textarea",
   "tfoot", "th", "thead", "time", "title", "tr", "track", "u", "ul", "var", "video", "wbr"]

/-- The elements of SVG. -/
def svgElements : List String :=
  ["svg", "animate", "animateMotion", "animateTransform", "circle", "clipPath", "defs", "desc",
   "ellipse", "feBlend", "feColorMatrix", "feComponentTransfer", "feComposite",
   "feConvolveMatrix", "feDiffuseLighting", "feDisplacementMap", "feDistantLight",
   "feDropShadow", "feFlood", "feGaussianBlur", "feImage", "feMerge", "feMergeNode",
   "feMorphology", "feOffset", "fePointLight", "feSpecularLighting", "feSpotLight", "feTile",
   "feTurbulence", "filter", "foreignObject", "g", "image", "line", "linearGradient", "marker",
   "mask", "metadata", "mpath", "path", "pattern", "polygon", "polyline", "radialGradient",
   "rect", "set", "stop", "switch", "symbol", "text", "textPath", "tspan", "use", "view"]

/-- The elements of MathML. -/
def mathElements : List String :=
  ["math", "maction", "menclose", "merror", "mfenced", "mfrac", "mi", "mmultiscripts", "mn",
   "mo", "mover", "mpadded", "mphantom", "mroot", "mrow", "ms", "mspace", "msqrt", "mstyle",
   "msub", "msubsup", "msup", "mtable", "mtd", "mtext", "mtr", "munder", "munderover",
   "semantics"]

/-- The elements of all three vocabularies. -/
def nativeElements : List String := htmlElements ++ svgElements ++ mathElements

end MarkupCompiler
