import ArchSpec.Model.Rules
import ArchSpec.Proofs.Binding
import ArchSpec.Proofs.Diagnostic
import ArchSpec.Proofs.Enumeration
import ArchSpec.Proofs.Model.Build

/-!
# What the check of a model reports

The rules for models, said without the functions that check them, and what is reported for each one
that is broken. The check reports every cycle and every broken rule once, and nothing else.

* `Rule`, `Component.Breaks`, `Model.Breaks` — the rules, and what it means to break one.
* `enumerates_checkComponent` — what is reported for one component.
* `enumerates_checkTogether` — what is reported for components with each other.
* `check_build` — what is reported for a model that was built.
* `authentication_of_unbroken` — what authentication has in a model that breaks no rule.
-/

namespace ArchSpec

/-! ## The rules -/

/-- A rule, and the component that has to follow it. -/
inductive Rule where
  /-- A text is not empty. -/
  | text (id field : String)
  | port (id : String)
  /-- The binding of a use-case can be read. -/
  | binding (id : String)
  /-- What a use-case is bound to is a server. -/
  | boundServer (id : String)
  /-- An entry in the list of middleware is middleware. -/
  | listed (id : String) (index : Nat)
  /-- Authentication has a server. -/
  | someServer
  /-- Authentication has a database for its tables. -/
  | someTables
  deriving DecidableEq, Repr

/-- The component that has to follow a rule; none for those of the whole model. -/
def Rule.component? : Rule → Option String
  | text id _ => some id
  | port id => some id
  | binding id => some id
  | boundServer id => some id
  | listed id _ => some id
  | someServer => none
  | someTables => none

/-- The texts that must not be empty, and what asks for them if not every component of the kind
does. -/
def Body.required : Body → List (String × String × Option String)
  | .server s => [("framework", s.framework, none)]
  | .middleware w => ("provider", w.provider, none) ::
    if w.provider = "better-auth" then [("config", w.config, some "better-auth provider")]
    else if w.provider = "casbin" then
      [("model", w.model, some "casbin provider"), ("policy", w.policy, some "casbin provider")]
    else []
  | .database d => [("provider", d.provider, none), ("schema", d.schema, none)]
  | .usecase u => [("binds_to", u.bindsTo, none), ("goal", u.goal, none)]

/-- A component breaks a rule, and what is reported for that. References to nothing break none. -/
inductive Component.Breaks (m : Model) (c : Component) : Rule → Diagnostic → Prop where
  | empty {field : String} {requiredBy : Option String}
    (h : (field, "", requiredBy) ∈ c.body.required) :
    Breaks m c (.text c.id field) (.missingField c.id field requiredBy c.position)
  | noPort {s : Server} (hs : c.body = .server s) (h : s.port = 0) :
    Breaks m c (.port c.id) (.missingField c.id "port" none c.position)
  | portRange {s : Server} (hs : c.body = .server s) (h : s.port ≠ 0)
    (hrange : ¬(1 ≤ s.port ∧ s.port ≤ 65535)) :
    Breaks m c (.port c.id) (.range c.id "port" s.port 1 65535 c.position)
  | malformed {u : Usecase} {f : Binding.Fault} (hu : c.body = .usecase u) (h : u.bindsTo ≠ "")
    (hparse : Binding.parse u.bindsTo = .error f) :
    Breaks m c (.binding c.id) (.format c.id ("invalid binds_to: " ++ f.message) c.position)
  /-- The rest of the binding may be malformed. -/
  | elsewhere {u : Usecase} {server rest : String} {other : Component}
    (hu : c.body = .usecase u) (h : u.bindsTo = server ++ ":" ++ rest) (hne : server ≠ "")
    (hcolon : ':' ∉ server.toList) (hother : m.get? server = some other)
    (hkind : other.kind ≠ .server) :
    Breaks m c (.boundServer c.id)
      (.typeMismatch c.id "binds_to" server .server other.kind c.position)
  | listed {index : Nat} {reference : String} {other : Component}
    (h : c.body.entries[index]? = some (reference, .middleware))
    (hother : m.get? reference = some other) (hkind : other.kind ≠ .middleware) :
    Breaks m c (.listed c.id index)
      (.typeMismatch c.id "middleware" reference .middleware other.kind c.position)

theorem Component.Breaks.component? {m : Model} {c : Component} {rule : Rule} {d : Diagnostic}
    (h : c.Breaks m rule d) : rule.component? = some c.id := by
  cases h <;> rfl

namespace Model

/-- A middleware that authenticates, and that a server or use-case lists. -/
def Authentication (m : Model) (id : String) : Prop :=
  (∃ user c, m.get? user = some c ∧ (id, .middleware) ∈ c.body.entries) ∧
  ∃ c w, m.get? id = some c ∧ c.body = .middleware w ∧ w.provider = "better-auth"

/-- The first by ID; texts are compared by their characters, which is the order of their bytes. -/
def LeastAuthentication (m : Model) (id : String) : Prop :=
  m.Authentication id ∧ ∀ other, m.Authentication other → id ≤ other

/-- A model breaks a rule, and what is reported for that. -/
inductive Breaks (m : Model) : Rule → Diagnostic → Prop where
  | component {id : String} {c : Component} {rule : Rule} {d : Diagnostic}
    (hc : m.get? id = some c) (h : c.Breaks m rule d) : Breaks m rule d
  | noServer {id : String} (h : m.LeastAuthentication id)
    (hnone : ∀ other c, m.get? other = some c → c.kind ≠ .server) :
    Breaks m .someServer
      (.crossComponent id "better-auth middleware requires at least one http.server component")
  | noTables {id : String} (h : m.LeastAuthentication id)
    (hnone : ∀ other c d, m.get? other = some c → c.body = .database d → d.provider ≠ "drizzle") :
    Breaks m .someTables (.crossComponent id
      "better-auth middleware requires a postgres component with provider \"drizzle\"")

variable {m : Model}

/-! ## Single components -/

theorem enumerates_requireText (c : Component) (field value : String)
    (requiredBy : Option String) :
    Enumerates (fun rule d => value = "" ∧ rule = Rule.text c.id field ∧
      d = missing c field requiredBy) (requireText c field value requiredBy) := by
  unfold requireText
  exact (Enumerates.ite (Rule.text c.id field) _ _).congr fun rule d => by simp

/-- Every text that must not be empty is reported once if it is. -/
theorem enumerates_required (c : Component) :
    Enumerates (fun rule d => ∃ e ∈ c.body.required, e.2.1 = "" ∧ rule = Rule.text c.id e.1 ∧
        d = missing c e.1 e.2.2)
      (c.body.required.flatMap fun e => requireText c e.1 e.2.1 e.2.2) := by
  refine Enumerates.flatMap Prod.fst ?_ (fun e _ => enumerates_requireText c e.1 e.2.1 e.2.2) ?_
  · rintro e f rule a b ⟨_, rfl, _⟩ ⟨_, h, _⟩
    exact (Rule.text.inj h).2
  · cases c.body with
    | server s => simp [Body.required]
    | middleware w =>
      simp only [Body.required]
      split
      · simp
      · split <;> simp
    | database d => simp [Body.required]
    | usecase u => simp [Body.required]

theorem enumerates_checkPort (c : Component) (port : Int) :
    Enumerates (fun rule d => rule = Rule.port c.id ∧
        (port = 0 ∧ d = .missingField c.id "port" none c.position ∨
          port ≠ 0 ∧ ¬(1 ≤ port ∧ port ≤ 65535) ∧ d = .range c.id "port" port 1 65535 c.position))
      (checkPort c port) := by
  unfold checkPort minPort maxPort
  split
  · rename_i h
    refine (Enumerates.ite (Rule.port c.id) (missing c "port" none) True).congr fun rule d => ?_
    simp [h, missing]
  · rename_i h
    rw [← ite_not]
    exact (Enumerates.ite (Rule.port c.id) _ _).congr fun rule d => by tauto

/-- A reference is reported once if it leads to a component of another kind. -/
theorem WellFormed.enumerates_expectKind (hm : m.WellFormed) (c : Component) (key : Rule)
    (field reference : String) (k : Kind) :
    Enumerates (fun rule d => ∃ other, m.get? reference = some other ∧ other.kind ≠ k ∧
        rule = key ∧ d = .typeMismatch c.id field reference k other.kind c.position)
      (m.expectKind c field reference k) := by
  unfold expectKind
  rw [hm.symbol]
  cases hother : m.get? reference with
  | none => exact Enumerates.nil (by simp)
  | some other =>
    simp only [Option.map_some]
    rw [← ite_not]
    exact (Enumerates.ite key _ _).congr fun rule d => by simp

/-- What is reported for the binding of a use-case, apart from its being empty. -/
theorem WellFormed.enumerates_checkBinding (hm : m.WellFormed) (c : Component) {text : String}
    (htext : text ≠ "") :
    Enumerates (fun rule d =>
        (∃ f, Binding.parse text = .error f ∧ rule = Rule.binding c.id ∧
          d = .format c.id ("invalid binds_to: " ++ f.message) c.position) ∨
        ∃ server, Binding.serverOf? text = some server ∧
          ∃ other, m.get? server = some other ∧ other.kind ≠ .server ∧
            rule = Rule.boundServer c.id ∧
            d = .typeMismatch c.id "binds_to" server .server other.kind c.position)
      (m.checkBinding c text) := by
  have hempty : text.isEmpty = false := by simpa using htext
  unfold checkBinding
  rw [hempty]
  refine Enumerates.append ?_ ?_ ?_
  · cases Binding.parse text with
    | ok b => exact Enumerates.nil (by simp)
    | error f =>
      exact (Enumerates.ite (Rule.binding c.id) _ True).congr fun rule d => by simp
  · cases Binding.serverOf? text with
    | none => exact Enumerates.nil (by simp)
    | some server =>
      exact (hm.enumerates_expectKind c (.boundServer c.id) "binds_to" server .server).congr
        fun rule d => by simp
  · rintro rule a b ⟨f, _, rfl, _⟩ ⟨server, _, other, _, _, h, _⟩
    cases h

/-- The middleware that a component lists are its first entries. -/
theorem getElem?_entries_iff {c : Component} {index : Nat} {reference : String} :
    c.body.entries[index]? = some (reference, .middleware) ↔
      c.middlewareList[index]? = some reference := by
  rw [c.entries_eq, List.getElem?_append, List.length_map]
  split
  · simp
  · rename_i hindex
    simp [List.getElem?_eq_none (Nat.le_of_not_lt hindex)]

theorem mem_entries_middleware_iff {c : Component} {reference : String} :
    (reference, .middleware) ∈ c.body.entries ↔ reference ∈ c.middlewareList := by
  simp only [List.mem_iff_getElem?, getElem?_entries_iff]

/-- Every entry of a list of middleware is reported once if it leads to something else. -/
theorem WellFormed.enumerates_checkMiddleware (hm : m.WellFormed) (c : Component) :
    Enumerates (fun rule d => ∃ e ∈ c.middlewareList.zipIdx, ∃ other, m.get? e.1 = some other ∧
        other.kind ≠ .middleware ∧ rule = Rule.listed c.id e.2 ∧
        d = .typeMismatch c.id "middleware" e.1 .middleware other.kind c.position)
      (m.checkMiddleware c) := by
  have hentries : m.checkMiddleware c =
      c.middlewareList.zipIdx.flatMap fun e => m.expectKind c "middleware" e.1 .middleware := by
    unfold checkMiddleware
    conv_lhs => rw [← List.zipIdx_map_fst 0 c.middlewareList, List.flatMap_map]
  rw [hentries]
  refine Enumerates.flatMap Prod.snd ?_
    (fun e _ => hm.enumerates_expectKind c (.listed c.id e.2) "middleware" e.1 .middleware) ?_
  · rintro e f rule a b ⟨_, _, _, rfl, _⟩ ⟨_, _, _, h, _⟩
    exact (Rule.listed.inj h).2
  · rw [List.zipIdx_map_snd]
    exact List.nodup_range'

/-- The problems of fields that are texts of a certain form, or numbers in a range. -/
def formProblems (m : Model) (c : Component) : List Diagnostic :=
  match c.body with
  | .server s => checkPort c s.port
  | .usecase u => if u.bindsTo = "" then [] else m.checkBinding c u.bindsTo
  | _ => []

/-- The parts of what is reported for a component. -/
theorem checkComponent_perm (m : Model) (c : Component) :
    (m.checkComponent c).Perm ((c.body.required.flatMap fun e => requireText c e.1 e.2.1 e.2.2) ++
      (m.formProblems c ++ m.checkMiddleware c)) := by
  have hlist : c.middlewareList = [] → m.checkMiddleware c = [] := by
    intro h
    unfold checkMiddleware
    rw [h]
    rfl
  unfold checkComponent formProblems
  cases hbody : c.body with
  | server s => simp [Body.required]
  | middleware w =>
    rw [hlist (by simp [Component.middlewareList, hbody])]
    by_cases hauth : w.provider = "better-auth"
    · simp [Body.required, checkProvider, hauth, betterAuth]
    · by_cases hcasbin : w.provider = "casbin"
      · simp [Body.required, checkProvider, hcasbin, betterAuth, casbin]
      · simp [Body.required, checkProvider, hauth, hcasbin, betterAuth, casbin]
  | database d =>
    rw [hlist (by simp [Component.middlewareList, hbody])]
    simp [Body.required]
  | usecase u =>
    by_cases hempty : u.bindsTo = ""
    · simp [Body.required, requireText, checkBinding, hempty]
    · -- the goal is looked at after the binding
      have hbinds : requireText c "binds_to" u.bindsTo none = [] := by
        simp [requireText, hempty]
      simp only [Body.required, hempty, if_false, List.flatMap_cons, List.flatMap_nil, hbinds,
        List.nil_append, List.append_nil]
      rw [← List.append_assoc]
      exact (List.perm_append_comm).append_right _

/-- What breaks the rules for such fields, by the kinds of components that have one. -/
theorem breaks_form_iff {c : Component} {rule : Rule} {d : Diagnostic} :
    (c.Breaks m rule d ∧
      (rule = .port c.id ∨ rule = .binding c.id ∨ rule = .boundServer c.id)) ↔
    (∃ s, c.body = .server s ∧ rule = .port c.id ∧
      (s.port = 0 ∧ d = .missingField c.id "port" none c.position ∨
        s.port ≠ 0 ∧ ¬(1 ≤ s.port ∧ s.port ≤ 65535) ∧
          d = .range c.id "port" s.port 1 65535 c.position)) ∨
    ∃ u, c.body = .usecase u ∧ u.bindsTo ≠ "" ∧
      ((∃ f, Binding.parse u.bindsTo = .error f ∧ rule = .binding c.id ∧
          d = .format c.id ("invalid binds_to: " ++ f.message) c.position) ∨
        ∃ server, Binding.serverOf? u.bindsTo = some server ∧
          ∃ other, m.get? server = some other ∧ other.kind ≠ .server ∧ rule = .boundServer c.id ∧
            d = .typeMismatch c.id "binds_to" server .server other.kind c.position) := by
  constructor
  · rintro ⟨hbreaks, hrule⟩
    cases hbreaks with
    | noPort hs h => exact .inl ⟨_, hs, rfl, .inl ⟨h, rfl⟩⟩
    | portRange hs h hrange => exact .inl ⟨_, hs, rfl, .inr ⟨h, hrange, rfl⟩⟩
    | malformed hu h hparse => exact .inr ⟨_, hu, h, .inl ⟨_, hparse, rfl, rfl⟩⟩
    | elsewhere hu htext hne hcolon hother hkind =>
      refine .inr ⟨_, hu, ?_, .inr ⟨_, Binding.serverOf?_eq_some_iff.2 ⟨hne, hcolon, _, htext⟩,
        _, hother, hkind, rfl, rfl⟩⟩
      simp [htext]
    | empty => simp at hrule
    | listed => simp at hrule
  · rintro (⟨s, hs, rfl, ⟨h, rfl⟩ | ⟨h, hrange, rfl⟩⟩ |
      ⟨u, hu, h, ⟨f, hparse, rfl, rfl⟩ | ⟨server, hserver, other, hother, hkind, rfl, rfl⟩⟩)
    · exact ⟨.noPort hs h, .inl rfl⟩
    · exact ⟨.portRange hs h hrange, .inl rfl⟩
    · exact ⟨.malformed hu h hparse, .inr (.inl rfl)⟩
    · obtain ⟨hne, hcolon, rest, htext⟩ := Binding.serverOf?_eq_some_iff.1 hserver
      exact ⟨.elsewhere hu htext hne hcolon hother hkind, .inr (.inr rfl)⟩

theorem WellFormed.enumerates_formProblems (hm : m.WellFormed) (c : Component) :
    Enumerates (fun rule d => c.Breaks m rule d ∧
        (rule = .port c.id ∨ rule = .binding c.id ∨ rule = .boundServer c.id))
      (m.formProblems c) := by
  simp only [breaks_form_iff]
  unfold formProblems
  cases hbody : c.body with
  | server s =>
    refine (enumerates_checkPort c s.port).congr fun rule d => ?_
    simp
  | usecase u =>
    by_cases hempty : u.bindsTo = ""
    · simp only [hempty, if_true]
      exact Enumerates.nil (by simp [hempty])
    · simp only [hempty, if_false]
      refine (hm.enumerates_checkBinding c hempty).congr fun rule d => ?_
      simp [hempty]
  | _ => exact Enumerates.nil (by simp)

/-- **Every rule that a component breaks is reported once, and nothing else.** -/
theorem WellFormed.enumerates_checkComponent (hm : m.WellFormed) (c : Component) :
    Enumerates (c.Breaks m) (m.checkComponent c) := by
  have h := (enumerates_required c).append ((hm.enumerates_formProblems c).append
    (hm.enumerates_checkMiddleware c) ?_) ?_
  · refine (h.perm (checkComponent_perm m c).symm).congr fun rule d => ⟨?_, ?_⟩
    · rintro (⟨⟨field, _, requiredBy⟩, he, rfl, rfl, rfl⟩ | ⟨h, _⟩ |
        ⟨⟨reference, index⟩, he, other, hother, hkind, rfl, rfl⟩)
      · exact .empty he
      · exact h
      · exact .listed (getElem?_entries_iff.2 (List.mk_mem_zipIdx_iff_getElem?.1 he)) hother hkind
    · intro hbreaks
      cases hbreaks with
      | empty he => exact .inl ⟨_, he, rfl, rfl, rfl⟩
      | noPort hs h => exact .inr (.inl ⟨.noPort hs h, .inl rfl⟩)
      | portRange hs h hrange => exact .inr (.inl ⟨.portRange hs h hrange, .inl rfl⟩)
      | malformed hu h hparse => exact .inr (.inl ⟨.malformed hu h hparse, .inr (.inl rfl)⟩)
      | elsewhere hu h hne hcolon hother hkind =>
        exact .inr (.inl ⟨.elsewhere hu h hne hcolon hother hkind, .inr (.inr rfl)⟩)
      | listed he hother hkind =>
        have he := List.mk_mem_zipIdx_iff_getElem?.2 (getElem?_entries_iff.1 he)
        exact .inr (.inr ⟨(_, _), he, _, hother, hkind, rfl, rfl⟩)
  · rintro rule a b ⟨_, hrule⟩ ⟨_, _, _, _, _, rfl, _⟩
    simp at hrule
  · rintro rule a b ⟨_, _, _, rfl, _⟩ (⟨_, hrule⟩ | ⟨_, _, _, _, _, h, _⟩)
    · simp at hrule
    · cases h

/-! ## Components with each other -/

theorem mem_authentication_iff {id : String} : id ∈ m.authentication ↔ m.Authentication id := by
  unfold authentication Authentication
  rw [List.mem_filter, List.mem_flatMap]
  refine and_congr ⟨?_, ?_⟩ ?_
  · rintro ⟨c, hc, hid⟩
    obtain ⟨user, hc⟩ := (m.components.mem_values_iff c).1 hc
    exact ⟨user, c, hc, mem_entries_middleware_iff.2 hid⟩
  · rintro ⟨user, c, hc, hid⟩
    exact ⟨c, (m.components.mem_values_iff c).2 ⟨user, hc⟩, mem_entries_middleware_iff.1 hid⟩
  · unfold authenticates betterAuth
    cases m.get? id with
    | none => simp
    | some c => cases hbody : c.body <;> simp [Component.middleware?, hbody]

theorem least?_eq_none_iff : ∀ {l : List String}, least? l = none ↔ l = []
  | [] => iff_of_true rfl rfl
  | a :: rest => by
    refine iff_of_false ?_ (List.cons_ne_nil _ _)
    unfold least?
    split
    · exact nofun
    · split <;> exact nofun

theorem least?_spec : ∀ {l : List String} {a : String}, least? l = some a →
    a ∈ l ∧ ∀ b ∈ l, a ≤ b
  | first :: rest, a, h => by
    unfold least? at h
    split at h
    · rename_i hnone
      cases h
      rw [least?_eq_none_iff.1 hnone]
      simp
    · rename_i least hleast
      obtain ⟨hmem, hle⟩ := least?_spec hleast
      split at h
      · rename_i hlt
        cases h
        refine ⟨List.mem_cons_of_mem _ hmem, fun b hb => ?_⟩
        rcases List.mem_cons.1 hb with rfl | hb
        · exact String.not_lt.1 (String.lt_asymm hlt)
        · exact hle b hb
      · rename_i hle'
        cases h
        refine ⟨List.mem_cons_self, fun b hb => ?_⟩
        rcases List.mem_cons.1 hb with rfl | hb
        · exact String.le_refl _
        · exact String.le_trans hle' (hle b hb)

/-- The component that what is missing is reported for. -/
theorem leastAuthentication_iff {id : String} :
    m.LeastAuthentication id ↔ least? m.authentication = some id := by
  unfold LeastAuthentication
  simp only [← mem_authentication_iff]
  constructor
  · rintro ⟨hmem, hle⟩
    cases hleast : least? m.authentication with
    | none => exact absurd hmem (by simp [least?_eq_none_iff.1 hleast])
    | some first =>
      obtain ⟨hfirst, hfirst_le⟩ := least?_spec hleast
      exact congrArg some (String.le_antisymm (hfirst_le id hmem) (hle first hfirst))
  · exact least?_spec

theorem ofKind_isEmpty_iff {k : Kind} :
    (m.ofKind k).isEmpty = true ↔ ∀ id c, m.get? id = some c → c.kind ≠ k := by
  unfold ofKind
  rw [List.isEmpty_iff, List.filter_eq_nil_iff]
  constructor
  · intro h id c hc hk
    exact h c ((m.components.mem_values_iff c).2 ⟨id, hc⟩) (decide_eq_true hk)
  · intro h c hc hk
    obtain ⟨id, hc⟩ := (m.components.mem_values_iff c).1 hc
    exact h id c hc (of_decide_eq_true hk)

theorem hasAuthenticationTables_eq_false_iff : m.hasAuthenticationTables = false ↔
    ∀ id c d, m.get? id = some c → c.body = .database d → d.provider ≠ "drizzle" := by
  unfold hasAuthenticationTables drizzle
  rw [List.any_eq_false]
  constructor
  · intro h id c d hc hd hp
    exact h c ((m.components.mem_values_iff c).2 ⟨id, hc⟩)
      (by simp [Component.database?_eq_some_iff.2 hd, hp])
  · intro h c hc
    obtain ⟨id, hc⟩ := (m.components.mem_values_iff c).1 hc
    cases hd : c.database? with
    | none => simp
    | some d => simpa using h id c d hc (Component.database?_eq_some_iff.1 hd)

theorem breaks_together_iff {rule : Rule} {d : Diagnostic} :
    (m.Breaks rule d ∧ (rule = .someServer ∨ rule = .someTables)) ↔
    ∃ id, m.LeastAuthentication id ∧
      ((∀ other c, m.get? other = some c → c.kind ≠ .server) ∧ rule = .someServer ∧
          d = .crossComponent id
            "better-auth middleware requires at least one http.server component" ∨
        (∀ other c d, m.get? other = some c → c.body = .database d → d.provider ≠ "drizzle") ∧
          rule = .someTables ∧
          d = .crossComponent id
            "better-auth middleware requires a postgres component with provider \"drizzle\"") := by
  constructor
  · rintro ⟨hbreaks, hrule⟩
    cases hbreaks with
    | component hc h => rcases hrule with rfl | rfl <;> cases h.component?
    | noServer h hnone => exact ⟨_, h, .inl ⟨hnone, rfl, rfl⟩⟩
    | noTables h hnone => exact ⟨_, h, .inr ⟨hnone, rfl, rfl⟩⟩
  · rintro ⟨id, h, ⟨hnone, rfl, rfl⟩ | ⟨hnone, rfl, rfl⟩⟩
    · exact ⟨.noServer h hnone, .inl rfl⟩
    · exact ⟨.noTables h hnone, .inr rfl⟩

/-- **What authentication lacks is reported once.** -/
theorem enumerates_checkTogether (m : Model) :
    Enumerates (fun rule d => m.Breaks rule d ∧ (rule = .someServer ∨ rule = .someTables))
      m.checkTogether := by
  simp only [breaks_together_iff, leastAuthentication_iff]
  unfold checkTogether
  cases hleast : least? m.authentication with
  | none => exact Enumerates.nil (by simp)
  | some id =>
    simp only [Option.some.injEq, exists_eq_left']
    refine Enumerates.append ?_ ?_ ?_
    · simp only [← ofKind_isEmpty_iff]
      exact Enumerates.ite Rule.someServer _ _
    · simp only [← hasAuthenticationTables_eq_false_iff, ← Bool.not_eq_true]
      rw [← ite_not]
      exact Enumerates.ite Rule.someTables _ _
    · rintro rule a b ⟨_, rfl, _⟩ ⟨_, h, _⟩
      cases h

/-! ## The whole check -/

/-- Every broken rule is reported once, for the component that has to follow it or for all. -/
theorem WellFormed.enumerates_breaks (hm : m.WellFormed) :
    Enumerates m.Breaks (m.components.values.flatMap m.checkComponent ++ m.checkTogether) := by
  have hsingle : Enumerates (fun rule d => ∃ c ∈ m.components.values, c.Breaks m rule d)
      (m.components.values.flatMap m.checkComponent) := by
    refine Enumerates.flatMap Component.id ?_ (fun c _ => hm.enumerates_checkComponent c) ?_
    · intro c c' rule a b h h'
      exact Option.some.inj (h.component?.symm.trans h'.component?)
    · rw [hm.map_id_values]
      exact m.components.nodup_keys
  refine (hsingle.append m.enumerates_checkTogether ?_).congr fun rule d => ⟨?_, ?_⟩
  · rintro rule a b ⟨c, _, h⟩ ⟨_, rfl | rfl⟩ <;> cases h.component?
  · rintro (⟨c, hc, h⟩ | ⟨h, _⟩)
    · obtain ⟨id, hc⟩ := (m.components.mem_values_iff c).1 hc
      exact .component hc h
    · exact h
  · intro h
    cases h with
    | component hc h => exact .inl ⟨_, (m.components.mem_values_iff _).2 ⟨_, hc⟩, h⟩
    | noServer h hnone => exact .inr ⟨.noServer h hnone, .inl rfl⟩
    | noTables h hnone => exact .inr ⟨.noTables h hnone, .inr rfl⟩

/-- **The check reports every cycle and every broken rule**, in order. -/
theorem WellFormed.mem_check_iff (hm : m.WellFormed) {d : Diagnostic} :
    d ∈ m.check ↔ (∃ cycle ∈ m.detectCycles, d = .cycle cycle) ∨ ∃ rule, m.Breaks rule d := by
  unfold check
  rw [(Diagnostic.sort_perm _).mem_iff, List.append_assoc, List.mem_append, List.mem_map,
    hm.enumerates_breaks.mem_iff]
  simp only [eq_comm]

theorem WellFormed.check_eq_nil_iff (hm : m.WellFormed) :
    m.check = [] ↔ m.detectCycles = [] ∧ ∀ rule d, ¬m.Breaks rule d := by
  unfold check
  rw [Diagnostic.sort_eq_nil_iff, List.append_assoc, List.append_eq_nil_iff, List.map_eq_nil_iff,
    hm.enumerates_breaks.eq_nil_iff]

/-- **The check of a model that was built reports what is wrong with it and nothing else**: in
order, every cycle and every broken rule once. -/
theorem check_build (s : Specification) (base : Path) (read : Path → Except Failure Contract) :
    let m := (build s base read).1
    (m.check.Pairwise fun a b => (Diagnostic.order a b).isLE = true) ∧
    (∃ broken, Enumerates m.Breaks broken ∧
      m.check.Perm (m.detectCycles.map .cycle ++ broken)) ∧
    (m.check = [] ↔ m.detectCycles = [] ∧ ∀ rule d, ¬m.Breaks rule d) := by
  intro m
  have hm : m.WellFormed := WellFormed.build s base read
  refine ⟨Diagnostic.pairwise_sort _, ⟨_, hm.enumerates_breaks, ?_⟩, hm.check_eq_nil_iff⟩
  rw [← List.append_assoc]
  exact Diagnostic.sort_perm _

/-- A server that lists authentication, a database twice and a name that nothing has, a use-case
that lists a server, and no database for the tables of the authentication. -/
def plaza : Specification :=
  ⟨"1.0.0", "plaza", "", "",
    [⟨"web", "server", [("framework", .text "axum"), ("port", .int 80),
        ("middleware", .texts ["auth", "db", "ghost", "db"])], none⟩,
      ⟨"ask", "usecase", [("binds_to", .text "web:GET:/"), ("goal", .text "ask"),
        ("middleware", .texts ["web"])], none⟩,
      ⟨"auth", "middleware", [("provider", .text "better-auth"), ("config", .text "auth.ts")],
        none⟩,
      ⟨"db", "postgres", [("provider", .text "sqlx"), ("schema", .text "db")], none⟩], .null⟩

def plazaModel : Model := (build plaza "" fun _ => .error (.plain "gone")).1

theorem check_build_plaza :
    plazaModel.check.Perm
      [.typeMismatch "ask" "middleware" "web" .middleware .server none,
        .typeMismatch "web" "middleware" "db" .middleware .database none,
        .typeMismatch "web" "middleware" "db" .middleware .database none,
        .crossComponent "auth"
          "better-auth middleware requires a postgres component with provider \"drizzle\""] ∧
    Enumerates plazaModel.Breaks plazaModel.check := by
  obtain ⟨-, ⟨broken, hbroken, hperm⟩, -⟩ := check_build plaza "" fun _ => .error (.plain "gone")
  have hcycles : plazaModel.detectCycles = [] := by decide
  refine ⟨(Diagnostic.sort_perm _).trans (.of_eq (by decide)), hbroken.perm ?_⟩
  rw [← List.nil_append broken, ← List.map_nil, ← hcycles]
  exact hperm.symm

/-! ## Models that break no rule -/

theorem bindsTo_of_unbroken (h : ∀ rule d, ¬m.Breaks rule d) {id : String} {c : Component}
    {u : Usecase} (hc : m.get? id = some c) (hu : c.body = .usecase u) : u.bindsTo ≠ "" := by
  intro hempty
  refine h (.text c.id "binds_to") (.missingField c.id "binds_to" none c.position)
    (.component hc (.empty ?_))
  simp [hu, Body.required, hempty]

/-- What is listed as middleware is middleware, as far as it is defined. -/
theorem kind_of_unbroken (h : ∀ rule d, ¬m.Breaks rule d) {id r : String} {c other : Component}
    (hc : m.get? id = some c) (hr : (r, .middleware) ∈ c.body.entries)
    (hother : m.get? r = some other) : other.kind = .middleware := by
  by_contra hkind
  obtain ⟨index, hindex⟩ := List.mem_iff_getElem?.1 hr
  exact h _ _ (.component hc (.listed hindex hother hkind))

/-- Authentication that is used has a server, and a database for its tables. -/
theorem authentication_of_unbroken (h : ∀ rule d, ¬m.Breaks rule d) {id : String}
    (hauth : m.Authentication id) :
    (∃ id c s, m.get? id = some c ∧ c.body = .server s) ∧
    ∃ id c d, m.get? id = some c ∧ c.body = .database d ∧ d.provider = "drizzle" := by
  have hsome : least? m.authentication ≠ none := fun hnone => by
    simpa [least?_eq_none_iff.1 hnone] using mem_authentication_iff.2 hauth
  obtain ⟨first, hfirst⟩ := Option.ne_none_iff_exists'.1 hsome
  have hleast := leastAuthentication_iff.2 hfirst
  constructor
  · by_contra hnone
    refine h _ _ (.noServer hleast fun other c hc hk => hnone ?_)
    obtain ⟨s, hs⟩ := server?_of_kind hk
    exact ⟨other, c, s, hc, Component.server?_eq_some_iff.1 hs⟩
  · by_contra hnone
    exact h _ _ (.noTables hleast fun other c d hc hd hp => hnone ⟨other, c, d, hc, hd, hp⟩)

end Model

end ArchSpec
