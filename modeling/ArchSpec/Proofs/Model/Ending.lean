import ArchSpec.Proofs.Model.Build

/-!
# How texts that ask for bindings end

A use-case asks for a binding by a text. What becomes of it depends on the typed components and on
the contracts that can be read, and on nothing else: not on other use-cases, and not on their order.

* `contractIn` — the contract of a server, by the function that reads contracts.
* `Ends` — the ways in which a text may end, as rules; `ending` computes the way.
* `ends_iff` — a text ends in exactly one way.
-/

namespace ArchSpec.Model

variable {t : Model} {base : Path} {read : Path → Except Failure Contract}

/-- The contract of a server, if it names one that can be read. -/
def contractIn (base : Path) (read : Path → Except Failure Contract) (s : Server) :
    Option Contract :=
  if s.openapi = "" then none
  else match read (Path.join base s.openapi) with
    | .ok k => some k
    | .error _ => none

/-! ## Endings -/

/-- How a text that asks for a binding may end. -/
inductive Ending where
  | malformed (f : Binding.Fault)
  | undefined (server : String)
  | mismatched (server : String) (kind : Kind)
  | notOffered (b : Binding)
  | bound (b : Binding)

namespace Ending

/-- What is reported of a use-case. -/
def diagnostic? (id : String) (p : Option Position) : Ending → Option Diagnostic
  | malformed f => some (.format id ("invalid binds_to: " ++ f.message) p)
  | undefined server => some (.unresolvedReference id server p)
  | mismatched server k => some (.typeMismatch id "binds_to" server .server k p)
  | notOffered b => some (.operationNotFound id b.server b.method.text b.path p)
  | bound _ => none

/-- The edge of a use-case; a route that is not offered has one too. -/
def edge? (id : String) : Ending → Option Edge
  | notOffered b => some ⟨id, b.server, .binding⟩
  | bound b => some ⟨id, b.server, .binding⟩
  | _ => none

def binding? : Ending → Option Binding
  | bound b => some b
  | _ => none

end Ending

/-- How a text ends, by the typed components and by what their contracts say. -/
inductive Ends (t : Model) (base : Path) (read : Path → Except Failure Contract) (text : String) :
    Ending → Prop
  | malformed {f : Binding.Fault} (hparse : Binding.parse text = .error f) :
    Ends t base read text (.malformed f)
  | undefined {b : Binding} (hparse : Binding.parse text = .ok b)
    (hc : t.get? b.server = none) : Ends t base read text (.undefined b.server)
  | mismatched {b : Binding} {c : Component} (hparse : Binding.parse text = .ok b)
    (hc : t.get? b.server = some c) (hs : c.kind ≠ .server) :
    Ends t base read text (.mismatched b.server c.kind)
  | notOffered {b : Binding} {c : Component} {s : Server} {k : Contract}
    (hparse : Binding.parse text = .ok b) (hc : t.get? b.server = some c)
    (hs : c.body = .server s) (hk : contractIn base read s = some k)
    (ho : k.find? b.method b.path = none) : Ends t base read text (.notOffered b)
  | offered {b : Binding} {c : Component} {s : Server} {k : Contract} {o : Operation}
    (hparse : Binding.parse text = .ok b) (hc : t.get? b.server = some c)
    (hs : c.body = .server s) (hk : contractIn base read s = some k)
    (ho : k.find? b.method b.path = some o) :
    Ends t base read text (.bound { b with operation := some o })
  | unknown {b : Binding} {c : Component} {s : Server} (hparse : Binding.parse text = .ok b)
    (hc : t.get? b.server = some c) (hs : c.body = .server s)
    (hk : contractIn base read s = none) : Ends t base read text (.bound b)

/-- How a text ends, computed. -/
def ending (t : Model) (base : Path) (read : Path → Except Failure Contract) (text : String) :
    Ending :=
  match Binding.parse text with
  | .error f => .malformed f
  | .ok b =>
    match t.get? b.server with
    | none => .undefined b.server
    | some c =>
      match c.body with
      | .server s =>
        match contractIn base read s with
        | none => .bound b
        | some k =>
          match k.find? b.method b.path with
          | none => .notOffered b
          | some o => .bound { b with operation := some o }
      | _ => .mismatched b.server c.kind

theorem kind_of_server {c : Component} {s : Server} (hs : c.body = .server s) :
    c.kind = .server := by
  rw [Component.kind, hs]
  rfl

/-- **A text ends in exactly one way.** -/
theorem ends_iff (t : Model) (base : Path) (read : Path → Except Failure Contract) (text : String)
    (e : Ending) : Ends t base read text e ↔ e = t.ending base read text := by
  constructor
  · intro h
    unfold ending
    cases h with
    | malformed hparse => rw [hparse]
    | undefined hparse hc => simp only [hparse, hc]
    | @mismatched b c hparse hc hs =>
      simp only [hparse, hc]
      split
      · rename_i s hserver
        exact absurd (kind_of_server hserver) hs
      · rfl
    | notOffered hparse hc hs hk ho => simp only [hparse, hc, hs, hk, ho]
    | offered hparse hc hs hk ho => simp only [hparse, hc, hs, hk, ho]
    | unknown hparse hc hs hk => simp only [hparse, hc, hs, hk]
  · rintro rfl
    unfold ending
    split
    · rename_i f hparse
      exact .malformed hparse
    · rename_i b hparse
      split
      · rename_i hc
        exact .undefined hparse hc
      · rename_i c hc
        split
        · rename_i s hs
          split
          · rename_i hk
            exact .unknown hparse hc hs hk
          · rename_i k hk
            split
            · rename_i ho
              exact .notOffered hparse hc hs hk ho
            · rename_i o ho
              exact .offered hparse hc hs hk ho
        · rename_i hother
          refine .mismatched hparse hc fun hk => ?_
          obtain ⟨s, hs⟩ := server?_of_kind hk
          exact hother s (Component.server?_eq_some_iff.1 hs)

end ArchSpec.Model
