import ArchSpec.Proofs.Occurrence
import ArchSpec.Proofs.Specification.Typing

/-!
# Declarations that repeat an ID

The check of a specification and the typing of its components both go through the declarations and
keep what they have seen: the check the kinds of the first declarations as they are written, typing
a table of symbols in which nothing is replaced. Both find the same repetitions.

* `Repetition.In`, `Repetitions` — the declarations that come after the first ones of their IDs.
* `repetitionsAfter` — the repetitions as they are met, with the declarations met so far;
  `repetitions_repetitionsAfter` — these are all.
* `Specification.duplicates_eq`, `Model.declare_eq` — what the check and typing make of them.
* `repetitions_agree` — both report every repetition once, and typing keeps the first declaration.
-/

namespace ArchSpec

/-! ## Repetitions -/

/-- A declaration whose ID was declared before. -/
structure Repetition where
  /-- How many declarations stand before it. -/
  index : Nat
  repeated : Declaration
  /-- The first declaration of the ID. -/
  first : Declaration

/-- Something is a repetition in a list of declarations. -/
structure Repetition.In (r : Repetition) (ds : List Declaration) : Prop where
  here : ds[r.index]? = some r.repeated
  same : r.first.id = r.repeated.id
  earlier : ∃ j < r.index, First Declaration.id ds j r.first

/-- What is reported of a repetition, with the kind of the first declaration. -/
def Repetition.report (r : Repetition) (kind : String) : Diagnostic :=
  .duplicateSymbol r.repeated.id kind r.repeated.position

/-- All repetitions in a list of declarations, each once and in order. -/
structure Repetitions (ds : List Declaration) (rs : List Repetition) : Prop where
  increasing : rs.Pairwise (·.index < ·.index)
  mem_iff : ∀ r, r ∈ rs ↔ r.In ds

section

variable {ds before rest : List Declaration} {d first : Declaration} {r : Repetition}
  {rs rs' : List Repetition}

theorem Repetitions.unique (h : Repetitions ds rs) (h' : Repetitions ds rs') : rs = rs' :=
  eq_of_increasing h.increasing h'.increasing fun r => (h.mem_iff r).trans (h'.mem_iff r).symm

/-- The next declaration is a repetition exactly if its ID has a first declaration already. -/
theorem next_in_iff : (⟨before.length, d, first⟩ : Repetition).In (before ++ d :: rest) ↔
    first? Declaration.id before d.id = some first := by
  rw [first?_eq_some_iff]
  constructor
  · rintro ⟨_, hsame, j, hj, h⟩
    exact ⟨hsame, j, (first_append_iff hj).1 h⟩
  · rintro ⟨hsame, j, h⟩
    exact ⟨by simp, hsame, j, h.lt, (first_append_iff h.lt).2 h⟩

/-! ## Repetitions as they are met -/

/-- The repetitions among declarations that come after others. -/
def repetitionsAfter (before : List Declaration) : List Declaration → List Repetition
  | [] => []
  | d :: rest =>
    match first? Declaration.id before d.id with
    | some first => ⟨before.length, d, first⟩ :: repetitionsAfter (before ++ [d]) rest
    | none => repetitionsAfter (before ++ [d]) rest

theorem mem_repetitionsAfter_iff : r ∈ repetitionsAfter before rest ↔
    before.length ≤ r.index ∧ r.In (before ++ rest) := by
  induction rest generalizing before with
  | nil =>
    refine iff_of_false List.not_mem_nil fun ⟨hle, h⟩ => ?_
    have hlt := (List.getElem?_eq_some_iff.1 h.here).1
    rw [List.append_nil] at hlt
    omega
  | cons d rest ih =>
    have hrest : r ∈ repetitionsAfter (before ++ [d]) rest ↔
        before.length < r.index ∧ r.In (before ++ d :: rest) := by
      rw [ih, List.length_append, List.append_assoc]
      rfl
    have hnext : r.index = before.length ∧ r.In (before ++ d :: rest) ↔
        ∃ first, first? Declaration.id before d.id = some first ∧
          r = ⟨before.length, d, first⟩ := by
      constructor
      · rintro ⟨hindex, h⟩
        have hd : r.repeated = d := by
          have := h.here
          rw [hindex] at this
          simpa using this.symm
        have hr : r = ⟨before.length, d, r.first⟩ := by rw [← hindex, ← hd]
        exact ⟨r.first, next_in_iff.1 (hr ▸ h), hr⟩
      · rintro ⟨first, hfirst, rfl⟩
        exact ⟨rfl, next_in_iff.2 hfirst⟩
    rw [Nat.le_iff_lt_or_eq, or_and_right, ← hrest, eq_comm (a := before.length), hnext,
      repetitionsAfter]
    cases first? Declaration.id before d.id with
    | none => simp
    | some first => simp [or_comm]

theorem pairwise_repetitionsAfter (before rest : List Declaration) :
    (repetitionsAfter before rest).Pairwise (·.index < ·.index) := by
  induction rest generalizing before with
  | nil => exact List.Pairwise.nil
  | cons d rest ih =>
    rw [repetitionsAfter]
    cases first? Declaration.id before d.id with
    | none => exact ih _
    | some first =>
      refine List.pairwise_cons.2 ⟨fun r hr => ?_, ih _⟩
      have hle := (mem_repetitionsAfter_iff.1 hr).1
      rw [List.length_append, List.length_singleton] at hle
      show before.length < r.index
      omega

/-- **These are all repetitions.** -/
theorem repetitions_repetitionsAfter (ds : List Declaration) :
    Repetitions ds (repetitionsAfter [] ds) := by
  refine ⟨pairwise_repetitionsAfter [] ds, fun r => ?_⟩
  rw [mem_repetitionsAfter_iff]
  simp

/-- There are none if all IDs are different. -/
theorem repetitionsAfter_of_nodup (h : (ds.map (·.id)).Nodup) : repetitionsAfter [] ds = [] := by
  refine List.eq_nil_iff_forall_not_mem.2 fun r hr => ?_
  obtain ⟨hhere, hsame, j, hj, hfirst⟩ := ((repetitions_repetitionsAfter ds).mem_iff r).1 hr
  have hids : (ds.map (·.id))[j]? = (ds.map (·.id))[r.index]? := by
    simp [hhere, hfirst.here, hsame]
  have hlt : j < (ds.map (·.id)).length := by simpa using hfirst.lt
  have hindex := (List.getElem?_inj hlt h).1 hids
  omega

end

/-! ## The check -/

namespace Specification

/-- **The check reports each repetition** with the kind of the first declaration as it is written,
if what it has seen are the first declarations so far. -/
theorem duplicates_eq (before : List Declaration) {seen : List (String × String)}
    (hseen : ∀ id, seen.lookup id = (first? Declaration.id before id).map (·.kind))
    (rest : List Declaration) : duplicates seen rest =
      (repetitionsAfter before rest).map fun r => r.report r.first.kind := by
  induction rest generalizing before seen with
  | nil => rfl
  | cons d rest ih =>
    rw [duplicates, repetitionsAfter, hseen]
    cases hfirst : first? Declaration.id before d.id with
    | some first =>
      have hstill : ∀ id, seen.lookup id =
          (first? Declaration.id (before ++ [d]) id).map (·.kind) := fun id => by
        rw [hseen, first?_concat_of_some hfirst]
      simp [ih (before ++ [d]) hstill, Repetition.report]
    | none =>
      refine ih (before ++ [d]) fun id => ?_
      rw [List.lookup_cons, first?_concat]
      by_cases hid : id = d.id
      · subst hid
        simp [hfirst]
      · have hother : (id == d.id) = false := beq_eq_false_iff_ne.2 hid
        simp [hother, Ne.symm hid, hseen]

theorem duplicates_eq_nil_iff {ds : List Declaration} :
    duplicates [] ds = [] ↔ (ds.map (·.id)).Nodup := by
  refine ⟨fun h => (nodup_of_duplicates h).1, fun h => ?_⟩
  rw [duplicates_eq [] (fun _ => rfl), repetitionsAfter_of_nodup h]
  rfl

theorem missingMetadata_eq_nil_iff {field value : String} :
    missingMetadata field value = [] ↔ value ≠ "" := by
  simp [missingMetadata]

end Specification

/-! ## Typing -/

namespace Model

/-- The component of a declaration, if its kind is known. -/
def componentOf? (d : Declaration) : Option Component :=
  (Kind.ofText? d.kind).map (Component.ofDeclaration d)

/-- **Typing refuses each repetition** and keeps the first declaration of each ID, if the kinds are
known and the components so far are those of the first declarations. -/
theorem declare_eq (before : List Declaration) {m : Model} (hm : m.Unlinked)
    (hcomponents : ∀ id, m.get? id = (first? Declaration.id before id).bind componentOf?)
    {rest : List Declaration} (hkinds : ∀ d ∈ before ++ rest, ∃ k, Kind.ofText? d.kind = some k) :
    List.Forall₂ (fun r x => ∃ k, Kind.ofText? r.first.kind = some k ∧ x = r.report k.text)
      (repetitionsAfter before rest) (m.declare rest).2 ∧
    ∀ id, (m.declare rest).1.get? id =
      (first? Declaration.id (before ++ rest) id).bind componentOf? := by
  induction rest generalizing before m with
  | nil =>
    rw [List.append_nil]
    exact ⟨.nil, hcomponents⟩
  | cons d rest ih =>
    obtain ⟨k, hk⟩ := hkinds d (by simp)
    have hassoc : before ++ d :: rest = (before ++ [d]) ++ rest := by simp
    rw [hassoc] at hkinds ⊢
    -- what the table of symbols knows of the ID is told by its first declaration
    have hadd := addDeclaration_eq m d
    rw [hk, hm.symbol, hcomponents] at hadd
    rw [repetitionsAfter]
    cases hfirst : first? Declaration.id before d.id with
    | some first =>
      obtain ⟨l, hl⟩ := hkinds first (by simp [List.mem_of_find?_eq_some hfirst])
      have hcomponent : (first? Declaration.id before d.id).bind componentOf? =
          some (.ofDeclaration first l) := by
        simp [hfirst, componentOf?, hl]
      rw [hcomponent] at hadd
      simp only [Option.map_some, kind_ofDeclaration] at hadd
      rw [declare, hadd]
      obtain ⟨hreports, hafter⟩ := ih (before ++ [d]) hm
        (fun id => by rw [hcomponents, first?_concat_of_some hfirst]) hkinds
      exact ⟨.cons ⟨l, hl, rfl⟩ hreports, hafter⟩
    | none =>
      rw [hfirst] at hadd
      rw [declare, hadd]
      refine ih (before ++ [d]) (hm.addDeclaration hadd) (fun id => ?_) hkinds
      rw [get?_enter, first?_concat, hcomponents]
      by_cases hid : d.id = id
      · subst hid
        simp [hfirst, componentOf?, hk]
      · simp [hid]

end Model

/-! ## Both -/

/-- **The check and typing report the same repetitions**, for every specification: the check finds
each repetition once, with its place and the kind of the first declaration, and otherwise only that
the version or the name is missing. It finds nothing exactly if all IDs are different and neither is
empty. If all kinds are known, typing refuses exactly the same repetitions, in their order, and
nothing else, and its components are those of the first declarations. -/
theorem repetitions_agree (s : Specification) : ∃ rs, Repetitions s.declarations rs ∧
    s.checkSemantics.Perm ((rs.map fun r => r.report r.first.kind) ++
      Specification.missingMetadata "version" s.version ++
      Specification.missingMetadata "name" s.name) ∧
    (s.checkSemantics = [] ↔
      (s.declarations.map (·.id)).Nodup ∧ s.version ≠ "" ∧ s.name ≠ "") ∧
    ((∀ d ∈ s.declarations, ∃ k, Kind.ofText? d.kind = some k) →
      List.Forall₂ (fun r x => ∃ k, Kind.ofText? r.first.kind = some k ∧ x = r.report k.text) rs
        (Model.typed s).2 ∧
      ∀ id c, (Model.typed s).1.get? id = some c ↔
        ∃ j d k, First Declaration.id s.declarations j d ∧ d.id = id ∧
          Kind.ofText? d.kind = some k ∧ c = .ofDeclaration d k) := by
  refine ⟨_, repetitions_repetitionsAfter s.declarations, ?_, ?_, fun hkinds => ?_⟩
  · have hreports := Specification.duplicates_eq [] (fun id => (rfl : [].lookup id = none))
      s.declarations
    rw [← hreports]
    exact Diagnostic.sort_perm _
  · rw [Specification.checkSemantics, Diagnostic.sort_eq_nil_iff, List.append_eq_nil_iff,
      List.append_eq_nil_iff, Specification.duplicates_eq_nil_iff,
      Specification.missingMetadata_eq_nil_iff, Specification.missingMetadata_eq_nil_iff, and_assoc]
  · have hall : ∀ d ∈ [] ++ s.declarations, ∃ k, Kind.ofText? d.kind = some k := hkinds
    obtain ⟨hreports, hcomponents⟩ :=
      Model.declare_eq [] (Model.Unlinked.empty _) (fun _ => rfl) hall
    refine ⟨hreports, fun id c => ?_⟩
    rw [Model.typed, hcomponents, Option.bind_eq_some_iff]
    simp only [List.nil_append, first?_eq_some_iff, Model.componentOf?, Option.map_eq_some_iff]
    constructor
    · rintro ⟨d, ⟨hid, j, hfirst⟩, k, hk, rfl⟩
      exact ⟨j, d, k, hfirst, hid, hk, rfl⟩
    · rintro ⟨j, d, k, hfirst, hid, hk, rfl⟩
      exact ⟨d, ⟨hid, j, hfirst⟩, k, hk, rfl⟩

/-- An ID that is declared three times, as components of different kinds. -/
def crowded : Specification :=
  ⟨"1.0.0", "crowded", "", "crowded.yaml", [⟨"a.x", "server", [("port", .int 80)], none⟩,
    ⟨"a.x", "usecase", [], some ⟨"crowded.yaml", 7, 5⟩⟩, ⟨"b.x", "database", [], none⟩,
    ⟨"a.x", "postgres", [], some ⟨"crowded.yaml", 3, 5⟩⟩], .null⟩

theorem repetitions_agree_crowded :
    (∀ d ∈ crowded.declarations, ∃ k, Kind.ofText? d.kind = some k) ∧
    crowded.checkSemantics.Perm [.duplicateSymbol "a.x" "server" (some ⟨"crowded.yaml", 7, 5⟩),
      .duplicateSymbol "a.x" "server" (some ⟨"crowded.yaml", 3, 5⟩)] ∧
    (Model.typed crowded).2 = [
      .duplicateSymbol "a.x" "http.server" (some ⟨"crowded.yaml", 7, 5⟩),
      .duplicateSymbol "a.x" "http.server" (some ⟨"crowded.yaml", 3, 5⟩)] ∧
    ∃ rs c, Repetitions crowded.declarations rs ∧ rs.map (·.index) = [1, 3] ∧
      List.Forall₂ (fun r x => ∃ k, Kind.ofText? r.first.kind = some k ∧ x = r.report k.text) rs
        (Model.typed crowded).2 ∧
      (Model.typed crowded).1.get? "a.x" = some c ∧ c.kind = .server := by
  have hkinds : ∀ d ∈ crowded.declarations, ∃ k, Kind.ofText? d.kind = some k := by
    simp [crowded, Kind.ofText?]
  obtain ⟨rs, hrs, hcheck, _, htyping⟩ := repetitions_agree crowded
  obtain ⟨hreports, hcomponents⟩ := htyping hkinds
  obtain rfl := hrs.unique (repetitions_repetitionsAfter crowded.declarations)
  have hfirst : First Declaration.id crowded.declarations 0
      ⟨"a.x", "server", [("port", .int 80)], none⟩ := ⟨rfl, nofun⟩
  exact ⟨hkinds, hcheck, by decide +kernel, _, _, hrs, rfl, hreports,
    (hcomponents "a.x" _).2 ⟨0, _, .server, hfirst, rfl, rfl, rfl⟩, rfl⟩

end ArchSpec
