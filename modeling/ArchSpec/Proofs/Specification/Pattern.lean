import ArchSpec.Proofs.Specification.Schema

/-!
# The pattern of bindings

The schema names the form of bindings by a regular expression, and it tests the form by taking the
text apart. Here the expression is taken at its word: what it matches is said of its parts, and a
text is found to match if some part of it does, unless the expression is bound to the ends.

* `Pattern`, `Pattern.text` — regular expressions and how they are written.
* `Pattern.Matches`, `Pattern.Finds` — what they match.
* `Schema.bindingPattern`, `Schema.finds_bindingPattern_iff` — the expression for bindings.
* `Schema.binding_agree` — the expression, the test and the reading of bindings agree.
-/

namespace ArchSpec

/-! ## Regular expressions -/

/-- A regular expression. -/
inductive Pattern where
  /-- The beginning of the text. -/
  | start
  /-- The end of the text. -/
  | finish
  | literal (s : String)
  /-- Any character but one. -/
  | except (c : Char)
  /-- Any character but a line feed. -/
  | any
  /-- Any number of repetitions. -/
  | many (p : Pattern)
  /-- One repetition at least. -/
  | several (p : Pattern)
  | either (p q : Pattern)
  | group (p : Pattern)
  | seq (p q : Pattern)
  deriving Repr

namespace Pattern

/-- The expression as it is written. -/
def text : Pattern → String
  | start => "^"
  | finish => "$"
  | literal s => s
  | except c => "[^" ++ String.ofList [c] ++ "]"
  | any => "."
  | many p => p.text ++ "*"
  | several p => p.text ++ "+"
  | either p q => p.text ++ "|" ++ q.text
  | group p => "(" ++ p.text ++ ")"
  | seq p q => p.text ++ q.text

/-- A piece of a text, of which it is known what comes before and after it, falls into pieces of a
kind. -/
inductive Repeats (kind : List Char → List Char → List Char → Prop) :
    List Char → List Char → List Char → Prop where
  | nil {before after : List Char} : Repeats kind before [] after
  | cons {before first rest after : List Char} (head : kind before first (rest ++ after))
    (tail : Repeats kind (before ++ first) rest after) : Repeats kind before (first ++ rest) after

/-- An expression matches a piece of a text, given what comes before and after it. -/
def Matches : Pattern → List Char → List Char → List Char → Prop
  | start => fun before cs _ => before = [] ∧ cs = []
  | finish => fun _ cs after => after = [] ∧ cs = []
  | literal s => fun _ cs _ => cs = s.toList
  | except c => fun _ cs _ => ∃ d, d ≠ c ∧ cs = [d]
  | any => fun _ cs _ => ∃ d, d ≠ '\n' ∧ cs = [d]
  | many p => Repeats p.Matches
  | several p => fun before cs after => ∃ first rest, cs = first ++ rest ∧
      p.Matches before first (rest ++ after) ∧ Repeats p.Matches (before ++ first) rest after
  | either p q => fun before cs after => p.Matches before cs after ∨ q.Matches before cs after
  | group p => p.Matches
  | seq p q => fun before cs after => ∃ first rest, cs = first ++ rest ∧
      p.Matches before first (rest ++ after) ∧ q.Matches (before ++ first) rest after

/-- An expression matches some piece of a text. -/
def Finds (p : Pattern) (s : String) : Prop :=
  ∃ before cs after, s.toList = before ++ cs ++ after ∧ p.Matches before cs after

variable {p : Pattern} {before cs after : List Char} {c : Char}

/-! ## Repetitions of characters -/

/-- Pieces of one character each are all the characters. -/
theorem repeats_iff {kind : Char → Prop} :
    Repeats (fun _ cs _ => ∃ d, kind d ∧ cs = [d]) before cs after ↔ ∀ d ∈ cs, kind d := by
  constructor
  · intro h
    induction h with
    | nil => simp
    | cons head _ ih =>
      obtain ⟨d, hd, rfl⟩ := head
      exact List.forall_mem_cons.2 ⟨hd, ih⟩
  · intro h
    induction cs generalizing before with
    | nil => exact .nil
    | cons d rest ih =>
      obtain ⟨hd, hrest⟩ := List.forall_mem_cons.1 h
      show Repeats _ before ([d] ++ rest) after
      exact .cons ⟨d, hd, rfl⟩ (ih hrest)

theorem matches_many_any : (many any).Matches before cs after ↔ '\n' ∉ cs := by
  rw [Matches]
  refine repeats_iff.trans ⟨fun h hmem => h _ hmem rfl, ?_⟩
  rintro h d hd rfl
  exact h hd

theorem matches_several_except :
    (several (except c)).Matches before cs after ↔ cs ≠ [] ∧ c ∉ cs := by
  rw [Matches]
  constructor
  · rintro ⟨_, rest, rfl, ⟨d, hd, rfl⟩, hrest⟩
    refine ⟨List.cons_ne_nil _ _, fun hmem => ?_⟩
    rcases List.mem_cons.1 hmem with rfl | hmem
    · exact hd rfl
    · exact repeats_iff.1 hrest _ hmem rfl
  · rintro ⟨hne, hc⟩
    obtain ⟨d, rest, rfl⟩ := List.exists_cons_of_ne_nil hne
    have hall : ∀ e ∈ d :: rest, e ≠ c := fun e he hec => hc (hec ▸ he)
    obtain ⟨hd, hrest⟩ := List.forall_mem_cons.1 hall
    exact ⟨[d], rest, rfl, ⟨d, hd, rfl⟩, repeats_iff.2 hrest⟩

/-! ## Expressions for whole texts -/

/-- An expression that is bound to both ends is found where it matches the text as a whole. -/
theorem finds_whole_iff {s : String} :
    (seq start (seq p finish)).Finds s ↔ p.Matches [] s.toList [] := by
  constructor
  · rintro ⟨before, cs, after, hs, _, _, rfl, ⟨rfl, rfl⟩, first, _, rfl, hp, rfl, rfl⟩
    rw [hs]
    simpa using hp
  · intro h
    refine ⟨[], s.toList, [], by simp, [], s.toList, rfl, ⟨rfl, rfl⟩, s.toList, [], by simp, ?_,
      rfl, rfl⟩
    simpa using h

end Pattern

namespace Schema

open Pattern

/-! ## Bindings -/

/-- The methods. -/
def methodPattern : Pattern :=
  group (either (literal "GET") (either (literal "POST") (either (literal "PUT")
    (either (literal "PATCH") (either (literal "DELETE") (either (literal "HEAD")
      (literal "OPTIONS")))))))

/-- A server, a method and a path. -/
def routePattern : Pattern :=
  seq (several (except ':')) (seq (literal ":") (seq methodPattern (seq (literal ":/") (many any))))

/-- The form of bindings as an expression. -/
def bindingPattern : Pattern := seq start (seq routePattern finish)

/-- The expression is the one that messages name. -/
theorem text_bindingPattern : bindingPattern.text = bindingForm := by
  decide

theorem matches_methodPattern {before cs after : List Char} :
    methodPattern.Matches before cs after ↔ ∃ m : Method, cs = m.text.toList := by
  constructor
  · rintro (h | h | h | h | h | h | h)
    · exact ⟨.get, h⟩
    · exact ⟨.post, h⟩
    · exact ⟨.put, h⟩
    · exact ⟨.patch, h⟩
    · exact ⟨.delete, h⟩
    · exact ⟨.head, h⟩
    · exact ⟨.options, h⟩
  · rintro ⟨m, h⟩
    cases m <;> simp [methodPattern, Matches, h, Method.text]

/-- **The expression for bindings** is found in the texts of the form of bindings. -/
theorem finds_bindingPattern_iff {s : String} : bindingPattern.Finds s ↔ HasBindingForm s := by
  rw [bindingPattern, finds_whole_iff, routePattern]
  constructor
  · rintro ⟨server, _, hs, hserver, _, _, rfl, rfl, method, _, rfl, hmethod, _, rest, rfl, rfl,
      hrest⟩
    obtain ⟨hne, hcolon⟩ := matches_several_except.1 hserver
    obtain ⟨m, rfl⟩ := matches_methodPattern.1 hmethod
    have hline := matches_many_any.1 hrest
    refine ⟨⟨String.ofList server, m, String.ofList ('/' :: rest), none⟩, ⟨?_, ?_, ?_, ?_⟩, ?_⟩
    · exact fun he => hne (by simpa using congrArg String.toList he)
    · simpa using hcolon
    · simp
    · exact String.toList_inj.1 (by simp [hs])
    · simpa using hline
  · rintro ⟨b, hb, hline⟩
    obtain ⟨rest, hrest⟩ := List.head?_eq_some_iff.1 hb.path
    rw [hrest] at hline
    refine ⟨b.server.toList, ':' :: (b.method.text.toList ++ ':' :: b.path.toList), hb.toList,
      matches_several_except.2 ⟨by simpa using hb.server, hb.colon⟩, [':'], _, rfl, rfl,
      b.method.text.toList, ':' :: b.path.toList, rfl, matches_methodPattern.2 ⟨_, rfl⟩,
      [':', '/'], rest, by rw [hrest]; rfl, rfl, matches_many_any.2 ?_⟩
    exact fun hmem => hline (List.mem_cons_of_mem _ hmem)

/-- A text has the form of a binding if it can be read as one with a path on one line. -/
theorem hasBindingForm_iff_parse {s : String} :
    HasBindingForm s ↔ ∃ b, Binding.parse s = .ok b ∧ '\n' ∉ b.path.toList := by
  constructor
  · rintro ⟨b, hb, hline⟩
    exact ⟨_, Binding.parse_of_spells hb, hline⟩
  · rintro ⟨b, hread, hline⟩
    exact ⟨b, Binding.spells_of_parse hread, hline⟩

/-- **The expression, the test of the schema and the reading of bindings agree**: a text passes the
test exactly if the expression that messages name is found in it, and that is so exactly if it can
be read as a binding whose path has no line feed. -/
theorem binding_agree (s : String) :
    bindingPattern.text = bindingForm ∧
    (isBinding s = true ↔ bindingPattern.Finds s) ∧
    (isBinding s = true ↔ ∃ b, Binding.parse s = .ok b ∧ '\n' ∉ b.path.toList) ∧
    ∀ path, checkForm path .binding (.text s) = [] ↔
      ∃ b, Binding.parse s = .ok b ∧ '\n' ∉ b.path.toList := by
  refine ⟨text_bindingPattern, ?_, ?_, fun path => ?_⟩
  · rw [isBinding_iff, finds_bindingPattern_iff]
  · rw [isBinding_iff, hasBindingForm_iff_parse]
  · rw [checkForm_eq_nil_iff, ← hasBindingForm_iff_parse]
    simp [FieldForm.Holds]

/-- A server may go over several lines, a path may not. -/
example : isBinding "a\nb:GET:/c" = true ∧ isBinding "a:GET:/b\nc" = false := by
  decide

end Schema

end ArchSpec
