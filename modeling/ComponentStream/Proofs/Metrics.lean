import ComponentStream.Metrics

/-!
# Counting

What a counter shows after several things have been counted is what it showed before and how often it came up.

* `Metrics.value_add`, `Metrics.value_addAll` — one addition, and several.
-/

namespace ComponentStream.Metrics

/-- What the list of counts holds for a counter. -/
theorem find?_addTo (c d : Counter) (n : Nat) (counts : List (Counter × Nat)) :
    (match (addTo c n counts).find? (·.1 = d) with
      | some (_, k) => k
      | none => 0) =
      (match counts.find? (·.1 = d) with
        | some (_, k) => k
        | none => 0) + if c = d then n else 0 := by
  induction counts with
  | nil => by_cases h : c = d <;> simp [addTo, h]
  | cons e rest ih =>
    obtain ⟨c', m⟩ := e
    rw [addTo]
    by_cases hc : c' = c
    · subst hc
      rw [if_pos rfl, List.find?_cons, List.find?_cons]
      by_cases hd : c' = d <;> simp [hd]
    · rw [if_neg hc, List.find?_cons, List.find?_cons]
      by_cases hd : c' = d
      · have hne : ¬ c = d := fun h => hc (hd.trans h.symm)
        simp [hd, hne]
      · simpa [hd] using ih

theorem value_add (m : Metrics) (c d : Counter) (n : Nat) :
    (m.add c n).value d = m.value d + if c = d then n else 0 :=
  find?_addTo c d n m.counts

/-- **A counter grows by the number of times that it is counted.** -/
theorem value_addAll (m : Metrics) (cs : List Counter) (d : Counter) :
    (m.addAll cs).value d = m.value d + cs.count d := by
  induction cs generalizing m with
  | nil => rfl
  | cons c cs ih =>
    have hfirst := value_add m c d 1
    have hrest := ih (m.add c 1)
    have hcount : (c :: cs).count d = cs.count d + if c = d then 1 else 0 := by
      rw [List.count_cons]
      simp only [beq_iff_eq]
    calc ((m.add c 1).addAll cs).value d
        = (m.add c 1).value d + cs.count d := hrest
      _ = m.value d + (c :: cs).count d := by rw [hfirst, hcount]; omega

end ComponentStream.Metrics
