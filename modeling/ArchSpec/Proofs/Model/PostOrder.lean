import ArchSpec.Proofs.Model.Dependency

/-!
# Depth-first post-orders

What it means that a list is the post-order of a depth-first search, as a relation and without any
of the means by which a search is carried out: no stack, and no bound on the depth.

* `PostOrder` — the post-orders from several starts, one after another.
* `PostOrder.unique` — there is at most one.
* `PostOrder.nodup`, `PostOrder.mem_of_mem_starts` — every element comes once, and all starts do.
* `PostOrder.before` — without cycles, every element stands behind those that it leads to.
* `PostOrder.eraseDups` — to list an element twice makes no difference.
-/

namespace ArchSpec

variable {α : Type} {next : α → List α}

/-- The post-order of a depth-first search from each of a list of starts, in turn, among the
elements that have not been seen: the post-order of what a start leads to, and then the start. -/
inductive PostOrder (next : α → List α) : List α → List α → List α → Prop
  | nil {seen : List α} : PostOrder next seen [] []
  | skip {seen rest out : List α} {a : α} : a ∈ seen → PostOrder next seen rest out →
    PostOrder next seen (a :: rest) out
  | visit {seen rest below others : List α} {a : α} : a ∉ seen →
    PostOrder next (a :: seen) (next a) below → PostOrder next (below ++ a :: seen) rest others →
    PostOrder next seen (a :: rest) (below ++ a :: others)

namespace PostOrder

variable {seen starts out : List α}

/-- Only what has been seen counts, not in which order. -/
theorem congr_seen (h : PostOrder next seen starts out) :
    ∀ {seen'}, (∀ a, a ∈ seen' ↔ a ∈ seen) → PostOrder next seen' starts out := by
  induction h with
  | nil =>
    intro _ _
    exact .nil
  | skip ha _ ih =>
    intro _ hs
    exact .skip ((hs _).2 ha) (ih hs)
  | visit ha _ _ ihBelow ihRest =>
    intro _ hs
    refine .visit (fun hm => ha ((hs _).1 hm)) (ihBelow fun b => ?_) (ihRest fun b => ?_)
    · simp only [List.mem_cons, hs]
    · simp only [List.mem_append, List.mem_cons, hs]

/-- **There is at most one post-order.** -/
theorem unique (h : PostOrder next seen starts out) :
    ∀ {out'}, PostOrder next seen starts out' → out' = out := by
  induction h with
  | nil =>
    intro out' h'
    cases h'
    rfl
  | skip ha _ ih =>
    intro out' h'
    cases h' with
    | skip _ h' => exact ih h'
    | visit ha' _ _ => exact absurd ha ha'
  | visit ha _ _ ihBelow ihRest =>
    intro out' h'
    cases h' with
    | skip ha' _ => exact absurd ha' ha
    | visit _ hBelow hRest =>
      cases ihBelow hBelow
      rw [ihRest hRest]

/-- The post-order from some starts and then from others. -/
theorem append {others out' : List α} (h : PostOrder next seen starts out) :
    PostOrder next (out ++ seen) others out' →
      PostOrder next seen (starts ++ others) (out ++ out') := by
  induction h with
  | nil => exact fun h' => h'
  | skip ha _ ih => exact fun h' => .skip ha (ih h')
  | visit ha hBelow _ _ ihRest =>
    intro h'
    rw [List.append_assoc]
    refine .visit ha hBelow (ihRest (h'.congr_seen fun b => ?_))
    simp only [List.mem_append, List.mem_cons, or_assoc, or_left_comm]

/-- Every start has been seen before or comes. -/
theorem mem_of_mem_starts (h : PostOrder next seen starts out) :
    ∀ a ∈ starts, a ∈ seen ∨ a ∈ out := by
  induction h with
  | nil =>
    intro a ha
    cases ha
  | skip hs _ ih =>
    intro a ha
    rcases List.mem_cons.1 ha with rfl | ha
    · exact .inl hs
    · exact ih a ha
  | visit _ _ _ _ ihRest =>
    intro a ha
    rcases List.mem_cons.1 ha with rfl | ha
    · exact .inr (List.mem_append_right _ List.mem_cons_self)
    · rcases ihRest a ha with hm | hm
      · rcases List.mem_append.1 hm with hm | hm
        · exact .inr (List.mem_append_left _ hm)
        · rcases List.mem_cons.1 hm with rfl | hm
          · exact .inr (List.mem_append_right _ List.mem_cons_self)
          · exact .inl hm
      · exact .inr (List.mem_append_right _ (List.mem_cons_of_mem _ hm))

/-- Nothing comes that has been seen before. -/
theorem not_mem_seen (h : PostOrder next seen starts out) : ∀ a ∈ out, a ∉ seen := by
  induction h with
  | nil =>
    intro a ha
    cases ha
  | skip _ _ ih => exact ih
  | visit hs _ _ ihBelow ihRest =>
    intro a ha
    rcases List.mem_append.1 ha with ha | ha
    · exact fun hm => ihBelow a ha (List.mem_cons_of_mem _ hm)
    · rcases List.mem_cons.1 ha with rfl | ha
      · exact hs
      · exact fun hm => ihRest a ha (List.mem_append_right _ (List.mem_cons_of_mem _ hm))

/-- **Nothing comes twice.** -/
theorem nodup (h : PostOrder next seen starts out) : out.Nodup := by
  induction h with
  | nil => exact List.nodup_nil
  | skip _ _ ih => exact ih
  | visit _ hBelow hRest ihBelow ihRest =>
    refine List.nodup_append.2 ⟨ihBelow, List.nodup_cons.2 ⟨?_, ihRest⟩, ?_⟩
    · intro ha
      exact hRest.not_mem_seen _ ha (List.mem_append_right _ List.mem_cons_self)
    · rintro b hb c hc rfl
      rcases List.mem_cons.1 hc with rfl | hc
      · exact hBelow.not_mem_seen _ hb List.mem_cons_self
      · exact hRest.not_mem_seen _ hc (List.mem_append_left _ hb)

/-- What comes is a start, or starts lead to it. -/
theorem reached (h : PostOrder next seen starts out) :
    ∀ a ∈ out, ∃ s ∈ starts, Relation.ReflTransGen (fun a b => b ∈ next a) s a := by
  induction h with
  | nil =>
    intro a ha
    cases ha
  | skip _ _ ih =>
    intro a ha
    obtain ⟨s, hs, hr⟩ := ih a ha
    exact ⟨s, List.mem_cons_of_mem _ hs, hr⟩
  | visit _ _ _ ihBelow ihRest =>
    intro b hb
    rcases List.mem_append.1 hb with hb | hb
    · obtain ⟨s, hs, hr⟩ := ihBelow b hb
      exact ⟨_, List.mem_cons_self, hr.head hs⟩
    · rcases List.mem_cons.1 hb with rfl | hb
      · exact ⟨b, List.mem_cons_self, .refl⟩
      · obtain ⟨s, hs, hr⟩ := ihRest b hb
        exact ⟨s, List.mem_cons_of_mem _ hs, hr⟩

/-- Without cycles, what comes below an element does not lead back to it. -/
theorem not_mem_next {a : α} {below : List α} (hacyclic : ¬ Cyclic fun a b => b ∈ next a)
    (h : PostOrder next (a :: seen) (next a) below) : ∀ c ∈ a :: below, a ∉ next c := by
  intro c hc hn
  rcases List.mem_cons.1 hc with rfl | hc
  · exact hacyclic ⟨c, .single hn⟩
  · obtain ⟨s, hs, hr⟩ := h.reached c hc
    exact hacyclic ⟨a, Relation.TransGen.tail' (hr.head hs) hn⟩

/-- **Without cycles every element stands behind those that it leads to**, unless these have been
seen before. -/
theorem before (hacyclic : ¬ Cyclic fun a b => b ∈ next a) (h : PostOrder next seen starts out) :
    ∀ a ∈ out, ∀ b ∈ next a, b ∈ seen ∨ [b, a].Sublist out := by
  induction h with
  | nil =>
    intro a ha
    cases ha
  | skip _ _ ih => exact ih
  | @visit seen rest below others a _ hBelow _ ihBelow ihRest =>
    have hback := hBelow.not_mem_next hacyclic
    intro c hc b hb
    rcases List.mem_append.1 hc with hcb | hca
    · -- `c` comes below the start `a`; it does not lead back to `a`
      rcases ihBelow c hcb b hb with hm | hm
      · rcases List.mem_cons.1 hm with e | hm
        · exact absurd (e ▸ hb) (hback c (List.mem_cons_of_mem _ hcb))
        · exact .inl hm
      · exact .inr (hm.trans (List.sublist_append_left _ _))
    · rcases List.mem_cons.1 hca with e | hco
      · -- `c` is the start, and all that it leads to comes below it
        rw [e] at hb ⊢
        rcases hBelow.mem_of_mem_starts b hb with hm | hm
        · rcases List.mem_cons.1 hm with e' | hm
          · exact absurd (e' ▸ hb) (hback a List.mem_cons_self)
          · exact .inl hm
        · exact .inr ((List.singleton_sublist.2 hm).append
            (List.singleton_sublist.2 List.mem_cons_self))
      · -- `c` comes from a later start, for which `a` and what is below it have been seen
        rcases ihRest c hco b hb with hm | hm
        · rcases List.mem_append.1 hm with hm | hm
          · exact .inr ((List.singleton_sublist.2 hm).append (List.singleton_sublist.2 hca))
          · rcases List.mem_cons.1 hm with e | hm
            · rw [e]
              exact .inr (((List.singleton_sublist.2 hco).cons_cons a).trans
                (List.sublist_append_right _ _))
            · exact .inl hm
        · exact .inr ((hm.cons a).trans (List.sublist_append_right _ _))

/-! ## Elements that are listed twice -/

/-- Starts that have been seen before may be left out. -/
theorem filter {p : α → Bool} (h : PostOrder next seen starts out) :
    (∀ a ∈ starts, p a = false → a ∈ seen) → PostOrder next seen (starts.filter p) out := by
  induction h with
  | nil =>
    intro _
    exact .nil
  | @skip seen rest out a ha _ ih =>
    intro hp
    have hrest := ih fun b hb => hp b (List.mem_cons_of_mem _ hb)
    rw [List.filter_cons]
    split
    · exact .skip ha hrest
    · exact hrest
  | @visit seen rest below others a ha hBelow _ _ ihRest =>
    intro hp
    have hpa : p a = true := by
      cases hc : p a with
      | true => rfl
      | false => exact absurd (hp a List.mem_cons_self hc) ha
    rw [List.filter_cons, if_pos hpa]
    refine .visit ha hBelow (ihRest fun b hb hpb => ?_)
    exact List.mem_append_right _ (List.mem_cons_of_mem _ (hp b (List.mem_cons_of_mem _ hb) hpb))

/-- **A start may be listed once only.** -/
theorem eraseDups [BEq α] [LawfulBEq α] : ∀ (n : Nat) {seen starts out : List α},
    starts.length ≤ n → PostOrder next seen starts out →
    PostOrder next seen starts.eraseDups out
  | _, _, [], _, _, h => h
  | n + 1, seen, a :: rest, _, hn, h => by
    -- what is left after the first element is filtered, so the recursion is on the length
    rw [List.eraseDups_cons]
    have hlen : (rest.filter fun b => !b == a).length ≤ n := by
      have := List.length_filter_le (fun b => !b == a) rest
      simp only [List.length_cons] at hn
      omega
    have hself : ∀ b ∈ rest, (!b == a) = false → b = a := by
      intro b _ hb
      simpa using hb
    cases h with
    | skip ha hrest =>
      refine .skip ha (eraseDups n hlen (hrest.filter fun b hb hp => ?_))
      rw [hself b hb hp]
      exact ha
    | visit ha hBelow hRest =>
      refine .visit ha hBelow (eraseDups n hlen (hRest.filter fun b hb hp => ?_))
      rw [hself b hb hp]
      exact List.mem_append_right _ List.mem_cons_self

/-- To list what an element leads to without repetitions makes no difference. -/
theorem eraseDups_next [BEq α] [LawfulBEq α] (h : PostOrder next seen starts out) :
    PostOrder (fun a => (next a).eraseDups) seen starts out := by
  induction h with
  | nil => exact .nil
  | skip ha _ ih => exact .skip ha ih
  | visit ha _ _ ihBelow ihRest => exact .visit ha (eraseDups _ (Nat.le_refl _) ihBelow) ihRest

end PostOrder

end ArchSpec
