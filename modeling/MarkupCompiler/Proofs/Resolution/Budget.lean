import MarkupCompiler.Compile

/-!
# Budgets

Resolution goes down as many levels as its budget says. A budget only decides whether the walk
through a tree is finished: one that is finished within a budget does the same within every
larger one. So what a compilation gives, output or diagnostic, does not depend on the budget
that it was found with. With the builtin rules it is found within the nesting of the forest.

## Main results

* `Walk.Prolongs` — a walk that does the same as another, as far as that is finished.
* `Resolver.resolveTag_prolongs`, `Resolver.resolveForest_mono` — larger budgets.
* `compileWith_mono`, `compileWith_builtin` — the budget of a compilation.
-/

namespace MarkupCompiler

namespace Walk

variable {α β : Type} {m m' : Walk α} {f f' : α → Walk β}

/-- The walk `m'` does the same as `m` wherever `m` is finished. -/
def Prolongs (m' m : Walk α) : Prop := ∀ unit, m.Finishes unit → m' unit = m unit

theorem Prolongs.refl (m : Walk α) : m.Prolongs m := fun _ _ => rfl

theorem Prolongs.bind (h : m'.Prolongs m) (hrest : ∀ a, (f' a).Prolongs (f a)) :
    (m' >>= f').Prolongs (m >>= f) := by
  intro unit hfinishes
  rcases hm : m unit with ⟨a, unit'⟩ | ⟨stop, unit'⟩
  · have hm' : m' unit = .ok a unit' := (h unit (by rintro _ heq; cases hm.symm.trans heq)).trans hm
    rw [Resolution.bind_of_ok hm, Resolution.bind_of_ok hm']
    refine hrest a unit' fun unit'' hstop => hfinishes unit'' ?_
    rw [Resolution.bind_of_ok hm, hstop]
  · -- the first step has failed, as it is finished
    have hm' : m' unit = .error stop unit' := by
      refine (h unit fun unit'' heq => hfinishes unit'' ?_).trans hm
      rw [Resolution.bind_of_error heq]
    rw [Resolution.bind_of_error hm, Resolution.bind_of_error hm']

end Walk

namespace Resolver

/-- The walk through a forest is prolonged if that through each of its tags is. -/
theorem resolveEach_prolongs {resolve resolve' : Tag → Walk Tag}
    (h : ∀ tag, (resolve' tag).Prolongs (resolve tag)) (nodes : List Node) :
    (resolveEach resolve' nodes).Prolongs (resolveEach resolve nodes) := by
  induction nodes with
  | nil => exact .refl _
  | cons node rest ih =>
      cases node with
      | tag tag => exact (h tag).bind fun tag' => ih.bind fun rest' => .refl _
      | _ => exact ih.bind fun rest' => .refl _

variable (r : Resolver) {budget budget' : Nat}

/-- **A larger budget** prolongs the walk through a tag. -/
theorem resolveTag_prolongs (h : budget ≤ budget') (tag : Tag) :
    (r.resolveTag budget' tag).Prolongs (r.resolveTag budget tag) := by
  induction budget generalizing budget' tag with
  | zero => exact fun unit hfinishes => absurd rfl (hfinishes unit)
  | succ budget ih =>
      obtain ⟨further, rfl⟩ := Nat.exists_eq_add_of_le' h
      refine (Walk.Prolongs.refl (r.resolveOwn tag)).bind fun own => ?_
      exact (resolveEach_prolongs (ih (Nat.le_add_left budget further)) own.body).bind
        fun body => .refl _

/-- A forest that is resolved within a budget is resolved so within every larger one. -/
theorem resolveForest_mono {nodes resolved : List Node} {unit unit' : CompileUnit}
    (hle : budget ≤ budget') (h : r.resolveForest budget nodes unit = .ok resolved unit') :
    r.resolveForest budget' nodes unit = .ok resolved unit' := by
  rw [← h]
  refine resolveEach_prolongs (r.resolveTag_prolongs hle) nodes unit fun _ hstop => ?_
  cases h.symm.trans hstop

end Resolver

variable {budget budget' : Nat} {registry : Registry} {config : Config} {schema : Schema}
  {nodes : List Node}

/-- **What a compilation gives does not depend on the budget** that it was found with. -/
theorem compileWith_mono (hle : budget ≤ budget')
    (h : compileWith budget registry config schema nodes ≠ .error .unfinished) :
    compileWith budget' registry config schema nodes =
      compileWith budget registry config schema nodes := by
  have hforest : Resolver.resolveForest ⟨registry, schema⟩ budget' nodes { config } =
      Resolver.resolveForest ⟨registry, schema⟩ budget nodes { config } := by
    refine Resolver.resolveEach_prolongs (Resolver.resolveTag_prolongs _ hle) nodes { config }
      fun unit hstop => h ?_
    rw [compileWith, Resolver.resolveForest, hstop]
  rw [compileWith, compileWith, hforest]

theorem Stop.mapError_settle {α : Type} {result : Except Stop α}
    (h : result ≠ .error .unfinished) :
    (Stop.settle result h).mapError Stop.failed = result := by
  rcases result with (d | _) | a
  · rfl
  · exact absurd rfl h
  · rfl

/-- **Compilation with the builtin rules** gives what it gives within any budget that is not
less than the nesting of the forest. -/
theorem compileWith_builtin (h : Node.forestNesting nodes ≤ budget) :
    compileWith budget Registry.builtin config schema nodes =
      (compile config schema nodes).mapError Stop.failed := by
  rw [compile, Stop.mapError_settle]
  exact compileWith_mono h (compileWith_ne_unfinished Registry.tame_builtin (Nat.le_refl _) _ _)

/-- A compilation with the builtin rules that succeeds within a budget. -/
theorem compile_of_ok {output : Output} (h : Node.forestNesting nodes ≤ budget)
    (hok : compileWith budget Registry.builtin config schema nodes = .ok output) :
    compile config schema nodes = .ok output := by
  rw [compileWith_builtin h] at hok
  rcases hresult : compile config schema nodes with d | output'
  · rw [hresult] at hok
    cases hok
  · rw [hresult] at hok
    rw [Except.ok.inj hok]

/-- A compilation with the builtin rules that fails within a budget. -/
theorem compile_of_failed {d : Diagnostic} (h : Node.forestNesting nodes ≤ budget)
    (hfailed : compileWith budget Registry.builtin config schema nodes = .error (.failed d)) :
    compile config schema nodes = .error d := by
  rw [compileWith_builtin h] at hfailed
  rcases hresult : compile config schema nodes with d' | output
  · rw [hresult] at hfailed
    rw [Stop.failed.inj (Except.error.inj hfailed)]
  · rw [hresult] at hfailed
    cases hfailed

end MarkupCompiler
