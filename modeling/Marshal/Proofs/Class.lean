import Marshal.Class

namespace Marshal.Class

theorem mem_lineage_or {c a b : Class} (ha : a ∈ c.lineage) (hb : b ∈ c.lineage) :
    b ∈ a.lineage ∨ a ∈ b.lineage := by
  induction c with
  | root t =>
    rw [lineage, List.mem_singleton] at ha hb
    exact .inl (by rw [ha, hb]; exact mem_lineage_self _)
  | sub t parent ih =>
    rcases List.mem_cons.1 ha with rfl | above
    · exact .inl hb
    · rcases List.mem_cons.1 hb with rfl | above'
      · exact .inr ha
      · exact ih above above'

theorem isWithin_eq_false {c a b : Class} (within : c.isWithin a = true)
    (apart : a.isWithin b = false) (apart' : b.isWithin a = false) : c.isWithin b = false := by
  simp only [isWithin, List.contains_eq_mem, decide_eq_true_eq, decide_eq_false_iff_not] at *
  intro within'
  exact (mem_lineage_or within within').elim apart apart'

theorem mem_lineage_trans {c a b : Class} (ha : a ∈ c.lineage) (hb : b ∈ a.lineage) :
    b ∈ c.lineage := by
  induction c with
  | root t =>
    rw [lineage, List.mem_singleton] at ha
    rwa [ha] at hb
  | sub t parent ih =>
    rcases List.mem_cons.1 ha with rfl | above
    · exact hb
    · exact List.mem_cons_of_mem _ (ih above)

theorem isWithin_trans {c a b : Class} (within : c.isWithin a = true)
    (above : a.isWithin b = true) : c.isWithin b = true := by
  simp only [isWithin, List.contains_eq_mem, decide_eq_true_eq] at *
  exact mem_lineage_trans within above

end Marshal.Class
