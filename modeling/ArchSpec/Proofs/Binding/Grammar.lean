import ArchSpec.Proofs.Binding
import ArchSpec.Proofs.Text

/-!
# The grammar of bindings

A text writes a binding if it consists of a server, a method and a path with colons between them.
There may be further colons in the path, but none in the server and none in a method, so such a text
can be taken apart in one way only, and reading it does just that.

* `Binding.Written` — what such a text consists of; `Binding.Written.unique` — in one way only.
* `Binding.parse_eq_ok_iff` — which binding is read.
* `Binding.parse_grammar` — reading and writing are inverse to each other.
-/

namespace ArchSpec

/-- The methods as they are written. -/
def Method.spelled : List String := ["GET", "POST", "PUT", "PATCH", "DELETE", "HEAD", "OPTIONS"]

theorem Method.mem_spelled_iff {s : String} : s ∈ spelled ↔ ∃ m : Method, m.text = s := by
  have hspelled : spelled = all.map text := rfl
  rw [hspelled, List.mem_map]
  constructor
  · rintro ⟨m, _, hm⟩
    exact ⟨m, hm⟩
  · rintro ⟨m, hm⟩
    exact ⟨m, m.mem_all, hm⟩

namespace Binding

variable {s server method path : String} {b : Binding}

/-- A text is a server, a method and a path with colons between them. -/
structure Written (s server method path : String) : Prop where
  text : s = server ++ ":" ++ method ++ ":" ++ path
  named : server ≠ ""
  /-- The first colon of the text comes after the server. -/
  colon : ':' ∉ server.toList
  spelled : method ∈ Method.spelled
  rooted : ∃ rest, path = "/" ++ rest

theorem head?_eq_slash_iff : path.toList.head? = some '/' ↔ ∃ rest, path = "/" ++ rest := by
  rw [List.head?_eq_some_iff]
  exact Text.begins_iff "/" path

/-- The parts of a text are those of the binding that it writes. -/
theorem written_iff : Written s b.server b.method.text b.path ↔ b.Spells s := by
  constructor
  · intro h
    exact ⟨h.named, h.colon, head?_eq_slash_iff.2 h.rooted, h.text⟩
  · intro h
    exact ⟨h.text, h.server, h.colon, Method.mem_spelled_iff.2 ⟨b.method, rfl⟩,
      head?_eq_slash_iff.1 h.path⟩

theorem Spells.eq_key (h : b.Spells s) : s = b.server ++ ":" ++ b.key := by
  rw [h.text, key, Method.key]
  simp only [String.append_assoc]

/-- **The binding that is read** is the one that the text writes, without an operation. -/
theorem parse_eq_ok_iff :
    parse s = .ok b ↔ b.operation = none ∧ Written s b.server b.method.text b.path := by
  rw [written_iff]
  constructor
  · intro h
    exact ⟨operation_of_parse h, spells_of_parse h⟩
  · intro h
    obtain ⟨hoperation, hspells⟩ := h
    rw [parse_of_spells hspells, ← hoperation]

theorem Written.parse (h : Written s server method path) :
    ∃ m : Method, m.text = method ∧ parse s = .ok ⟨server, m, path, none⟩ := by
  obtain ⟨m, rfl⟩ := Method.mem_spelled_iff.1 h.spelled
  exact ⟨m, rfl, parse_eq_ok_iff.2 ⟨rfl, h⟩⟩

/-- **A text can be taken apart in one way only.** -/
theorem Written.unique {server' method' path' : String} (h : Written s server method path)
    (h' : Written s server' method' path') :
    server = server' ∧ method = method' ∧ path = path' := by
  obtain ⟨m, rfl, hread⟩ := h.parse
  obtain ⟨m', rfl, hread'⟩ := h'.parse
  rw [hread] at hread'
  cases hread'
  exact ⟨rfl, rfl, rfl⟩

/-- **Reading and writing bindings are inverse to each other.** A text is read as a binding exactly
if it is a server, a method and a path with colons between them. These are then the parts of the
binding and there are no others; the binding has no operation, its server and its key make up the
text again, and its server is the one that is found without reading the rest. And whatever is
written from a server, a method and a path is read as these. -/
theorem parse_grammar :
    (∀ s, (∃ b, parse s = .ok b) ↔ ∃ server method path, Written s server method path) ∧
    (∀ s b, parse s = .ok b → b.operation = none ∧ b.server ++ ":" ++ b.key = s ∧
      serverOf? s = some b.server ∧ ∀ server method path, Written s server method path ↔
        server = b.server ∧ method = b.method.text ∧ path = b.path) ∧
    ∀ (server : String) (m : Method) (path : String), server ≠ "" → ':' ∉ server.toList →
      (∃ rest, path = "/" ++ rest) →
        parse (server ++ ":" ++ m.key path) = .ok ⟨server, m, path, none⟩ := by
  refine ⟨fun s => ⟨?_, ?_⟩, fun s b hread => ?_, fun server m path hserver hcolon hpath => ?_⟩
  · rintro ⟨b, hread⟩
    exact ⟨_, _, _, (parse_eq_ok_iff.1 hread).2⟩
  · rintro ⟨server, method, path, hwritten⟩
    obtain ⟨m, _, hread⟩ := hwritten.parse
    exact ⟨_, hread⟩
  · obtain ⟨hoperation, hwritten⟩ := parse_eq_ok_iff.1 hread
    have hspells := written_iff.1 hwritten
    refine ⟨hoperation, hspells.eq_key.symm, hspells.serverOf?, fun server method path => ⟨?_, ?_⟩⟩
    · exact fun hother => hother.unique hwritten
    · rintro ⟨rfl, rfl, rfl⟩
      exact hwritten
  · refine parse_eq_ok_iff.2 ⟨rfl, ?_, hserver, hcolon, Method.mem_spelled_iff.2 ⟨m, rfl⟩, hpath⟩
    rw [Method.key]
    simp only [String.append_assoc]

/-- The path of a binding may hold colons of its own. -/
theorem parse_grammar_clock :
    parse "server.api:GET:/time/12:30" = .ok ⟨"server.api", .get, "/time/12:30", none⟩ ∧
      ∀ server method path, Written "server.api:GET:/time/12:30" server method path →
        server = "server.api" ∧ method = "GET" ∧ path = "/time/12:30" := by
  have hread := parse_grammar.2.2 "server.api" .get "/time/12:30" (by decide) (by decide)
    ⟨"time/12:30", by decide⟩
  obtain ⟨_, _, _, hparts⟩ := parse_grammar.2.1 _ _ hread
  exact ⟨hread, fun server method path h => (hparts server method path).1 h⟩

end Binding

end ArchSpec
