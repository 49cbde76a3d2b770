import ArchSpec.Cache.Fingerprint
import ArchSpec.Model.Order
import ArchSpec.Proofs.Model.Build

/-!
# The order of declarations

Components are typed in the order in which they are declared and kept by their IDs, and all later
steps go by the IDs. So specifications that declare the same components in different orders have
the same model, if no ID is declared twice.

* `enter_comm`, `addDeclaration_enter` — two declarations with different IDs do not affect each
  other.
* `declare_perm` — the components that are typed do not depend on the order.
* `build_perm` — neither does what is built.
-/

namespace ArchSpec.Model

variable {m : Model} {d e : Declaration} {k l : Kind}

/-! ## Two declarations -/

/-- Declarations with different IDs may be entered in either order. -/
theorem enter_comm (m : Model) (h : d.id ≠ e.id) :
    (m.enter d k).enter e l = (m.enter e l).enter d k := by
  have hinsert : ∀ {α : Type} (t : SortedMap α) (a b : α),
      (t.insert d.id a).insert e.id b = (t.insert e.id b).insert d.id a := by
    intro α t a b
    refine SortedMap.ext_get? fun name => ?_
    simp only [SortedMap.get?_insert]
    split
    · rename_i he
      rw [if_neg (he ▸ h)]
    · rfl
  simp only [enter, hinsert]

/-- **What becomes of a declaration does not depend on one with another ID.** -/
theorem addDeclaration_enter (m : Model) (h : d.id ≠ e.id) :
    (m.enter d k).addDeclaration e = (m.addDeclaration e).map (·.enter d k) := by
  rw [addDeclaration_eq, addDeclaration_eq, symbol_enter, if_neg h]
  cases Kind.ofText? e.kind with
  | none => rfl
  | some l =>
    cases m.symbols.get? e.id with
    | some s => rfl
    | none => exact congrArg Except.ok (m.enter_comm h)

/-! ## All declarations -/

theorem declare_cons_ok {m' : Model} (h : m.addDeclaration d = .ok m') (rest : List Declaration) :
    m.declare (d :: rest) = m'.declare rest := by
  rw [declare, h]

theorem declare_cons_error {x : Diagnostic} (h : m.addDeclaration d = .error x)
    (rest : List Declaration) :
    m.declare (d :: rest) = ((m.declare rest).1, x :: (m.declare rest).2) := by
  rw [declare, h]

/-- Two neighbours with different IDs may be exchanged. -/
theorem declare_swap (m : Model) (h : d.id ≠ e.id) (rest : List Declaration) :
    (m.declare (e :: d :: rest)).1 = (m.declare (d :: e :: rest)).1 ∧
    (m.declare (e :: d :: rest)).2.Perm (m.declare (d :: e :: rest)).2 := by
  cases hd : m.addDeclaration d with
  | error x =>
    cases he : m.addDeclaration e with
    | error y =>
      rw [declare_cons_error hd, declare_cons_error he, declare_cons_error hd,
        declare_cons_error he]
      exact ⟨rfl, .swap x y _⟩
    | ok me =>
      obtain ⟨l, _, rfl⟩ := addDeclaration_ok he
      have hd' : (m.enter e l).addDeclaration d = .error x := by
        rw [addDeclaration_enter m h.symm, hd]
        rfl
      rw [declare_cons_error hd, declare_cons_ok he, declare_cons_ok he, declare_cons_error hd']
      exact ⟨rfl, .refl _⟩
  | ok md =>
    obtain ⟨k, _, rfl⟩ := addDeclaration_ok hd
    have he' := addDeclaration_enter (k := k) m h
    cases he : m.addDeclaration e with
    | error y =>
      rw [he] at he'
      rw [declare_cons_ok hd, declare_cons_error he, declare_cons_ok hd, declare_cons_error he']
      exact ⟨rfl, .refl _⟩
    | ok me =>
      obtain ⟨l, _, rfl⟩ := addDeclaration_ok he
      rw [he] at he'
      have hd' : (m.enter e l).addDeclaration d = .ok ((m.enter e l).enter d k) := by
        rw [addDeclaration_enter m h.symm, hd]
        exact congrArg Except.ok (m.enter_comm h)
      rw [declare_cons_ok hd, declare_cons_ok he, declare_cons_ok he', declare_cons_ok hd']
      exact ⟨rfl, .refl _⟩

/-- **The typed components do not depend on the order of their declarations**, if no ID is declared
twice; neither does what is refused, apart from its order. -/
theorem declare_perm {ds ds' : List Declaration} (hperm : ds'.Perm ds)
    (hn : (ds.map (·.id)).Nodup) (m : Model) :
    (m.declare ds').1 = (m.declare ds).1 ∧ (m.declare ds').2.Perm (m.declare ds).2 := by
  induction hperm generalizing m with
  | nil => exact ⟨rfl, .refl _⟩
  | cons d _ ih =>
    have hrest := ih (List.nodup_cons.1 hn).2
    cases hd : m.addDeclaration d with
    | ok m' =>
      rw [declare_cons_ok hd, declare_cons_ok hd]
      exact hrest m'
    | error x =>
      rw [declare_cons_error hd, declare_cons_error hd]
      exact ⟨(hrest m).1, (hrest m).2.cons x⟩
  | swap d e rest =>
    have hne : d.id ≠ e.id := fun heq => (List.nodup_cons.1 hn).1 (by simp [heq])
    exact m.declare_swap hne rest
  | trans h₁ h₂ ih₁ ih₂ =>
    have hn' := (h₂.map (·.id)).nodup_iff.2 hn
    obtain ⟨hmodel₁, herrors₁⟩ := ih₁ hn' m
    obtain ⟨hmodel₂, herrors₂⟩ := ih₂ hn m
    exact ⟨hmodel₁.trans hmodel₂, herrors₁.trans herrors₂⟩

/-! ## All steps -/

/-- **What is built does not depend on the order of the declarations**, if no ID is declared twice:
the model is the same with all that is computed from it, and so are the problems, except that those
of typing come in the order of the declarations. -/
theorem build_perm {s s' : Specification} (hmetadata : metadataOf s' = metadataOf s)
    (hperm : s'.declarations.Perm s.declarations) (hn : (s.declarations.map (·.id)).Nodup)
    (base : Path) (read : Path → Except Failure Contract) :
    let built := build s base read
    let built' := build s' base read
    built'.1 = built.1 ∧
    built'.1.fingerprint = built.1.fingerprint ∧
    built'.1.components.mapValues (fun _ c => c.fingerprint) =
      built.1.components.mapValues (fun _ c => c.fingerprint) ∧
    built'.1.topologicalOrder = built.1.topologicalOrder ∧
    built'.2.Perm built.2 ∧ ((typed s).2 = [] → built'.2 = built.2) := by
  obtain ⟨hmodel, herrors⟩ := declare_perm hperm hn (empty (metadataOf s))
  have htyped : (typed s').1 = (typed s).1 ∧ (typed s').2.Perm (typed s).2 := by
    unfold typed
    rw [hmetadata]
    exact ⟨hmodel, herrors⟩
  intro built built'
  suffices h : built'.1 = built.1 ∧ built'.2.Perm built.2 ∧
      ((typed s).2 = [] → built'.2 = built.2) by
    obtain ⟨hsame, hproblems⟩ := h
    rw [hsame]
    exact ⟨rfl, rfl, rfl, rfl, hproblems⟩
  by_cases hnil : (typed s).2 = []
  · -- the later steps start from the same typed components
    have hnil' : (typed s').2 = [] := (hnil ▸ htyped.2).eq_nil
    have hbuilt : built' = built := by
      show build s' base read = build s base read
      rw [build_of_typed hnil, build_of_typed hnil', htyped.1]
    rw [hbuilt]
    exact ⟨rfl, .refl _, fun _ => rfl⟩
  · have hnil' : (typed s').2 ≠ [] := fun h => hnil ((h ▸ htyped.2).symm.eq_nil)
    have hbuilt : built = typed s := build_of_typed_errors hnil base read
    have hbuilt' : built' = typed s' := build_of_typed_errors hnil' base read
    rw [hbuilt, hbuilt']
    exact ⟨htyped.1, htyped.2, fun h => absurd h hnil⟩

/-- Components that refer to others before and behind them. -/
def bazaar : Specification :=
  ⟨"1.0.0", "bazaar", "", "",
    [⟨"sell", "usecase", [("binds_to", .text "web:GET:/"), ("middleware", .texts ["log", "x"])],
        none⟩,
      ⟨"web", "server", [("openapi", .text "web.yaml"), ("middleware", .texts ["log", "auth"])],
        none⟩,
      ⟨"log", "middleware", [("depends_on", .texts ["auth"])], none⟩,
      ⟨"auth", "middleware", [], none⟩], .null⟩

/-- The same components, declared the other way round. -/
def bazaarReversed : Specification := { bazaar with declarations := bazaar.declarations.reverse }

theorem build_perm_bazaar :
    bazaarReversed.declarations.Perm bazaar.declarations ∧
    (bazaar.declarations.map (·.id)).Nodup ∧
    (build bazaarReversed "" fun _ => .ok .empty).1 = (build bazaar "" fun _ => .ok .empty).1 ∧
    (build bazaarReversed "" fun _ => .ok .empty).1.edges =
      [⟨"log", "auth", .dependency⟩, ⟨"sell", "log", .middleware⟩, ⟨"web", "log", .middleware⟩,
        ⟨"web", "auth", .middleware⟩, ⟨"sell", "web", .binding⟩] ∧
    (build bazaarReversed "" fun _ => .ok .empty).2 =
      [.unresolvedReference "sell" "x" none, .operationNotFound "sell" "web" "GET" "/" none] := by
  have hperm : bazaarReversed.declarations.Perm bazaar.declarations := List.reverse_perm _
  have hn : (bazaar.declarations.map (·.id)).Nodup := by decide
  have hmetadata : metadataOf bazaarReversed = metadataOf bazaar := rfl
  obtain ⟨hmodel, _, _, _, _, hproblems⟩ := build_perm hmetadata hperm hn "" fun _ => .ok .empty
  refine ⟨hperm, hn, hmodel, ?_, (hproblems (by decide)).trans (by decide)⟩
  rw [hmodel]
  decide

end ArchSpec.Model
