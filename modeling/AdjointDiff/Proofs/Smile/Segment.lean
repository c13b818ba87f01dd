import AdjointDiff.Proofs.Smile.Interpolation

set_option autoImplicit false

namespace AdjointDiff

/-- The comparisons of a carrier read through `val`: each value stands for an element of a linear
order or for nothing (a NaN), and two values compare as what they stand for, a NaN comparing false
with everything. -/
structure Scalar.ComparesBy {α β : Type} [Scalar α] [LinearOrder β] (val : α → Option β) :
    Prop where
  le_iff (a b : α) : a ≤ b ↔ ∃ u v, val a = some u ∧ val b = some v ∧ u ≤ v
  lt_iff (a b : α) : a < b ↔ ∃ u v, val a = some u ∧ val b = some v ∧ u < v

namespace Scalar.ComparesBy

variable {α β : Type} [Scalar α] [LinearOrder β] {val : α → Option β}
  (compares : ComparesBy val) {a b c : α} {u v : β}

include compares

theorem le_of_val (ha : val a = some u) (hb : val b = some v) : a ≤ b ↔ u ≤ v := by
  simp [compares.le_iff, ha, hb]

theorem lt_of_val (ha : val a = some u) (hb : val b = some v) : a < b ↔ u < v := by
  simp [compares.lt_iff, ha, hb]

theorem vals_of_le (le : a ≤ b) : ∃ u v, val a = some u ∧ val b = some v ∧ u ≤ v :=
  (compares.le_iff a b).1 le

theorem not_lt_of_le (le : a ≤ b) : ¬ b < a := by
  obtain ⟨u, v, ha, hb, uv⟩ := compares.vals_of_le le
  rw [compares.lt_of_val hb ha]
  exact not_lt.2 uv

theorem le_of_lt (lt : a < b) : a ≤ b := by
  obtain ⟨u, v, ha, hb, uv⟩ := (compares.lt_iff a b).1 lt
  exact (compares.le_of_val ha hb).2 uv.le

theorem le_trans (ab : a ≤ b) (bc : b ≤ c) : a ≤ c := by
  obtain ⟨u, v, ha, hb, uv⟩ := compares.vals_of_le ab
  obtain ⟨v', w, hb', hc, vw⟩ := compares.vals_of_le bc
  rw [hb, Option.some.injEq] at hb'
  subst hb'
  exact (compares.le_of_val ha hc).2 (uv.trans vw)

theorem lt_of_lt_of_le (ab : a < b) (bc : b ≤ c) : a < c := by
  obtain ⟨u, v, ha, hb, uv⟩ := (compares.lt_iff a b).1 ab
  obtain ⟨v', w, hb', hc, vw⟩ := compares.vals_of_le bc
  rw [hb, Option.some.injEq] at hb'
  subst hb'
  exact (compares.lt_of_val ha hc).2 (uv.trans_le vw)

theorem le_of_not_lt (ha : val a = some u) (hb : val b = some v) (no_lt : ¬ b < a) : a ≤ b := by
  rw [compares.lt_of_val hb ha] at no_lt
  exact (compares.le_of_val ha hb).2 (not_lt.1 no_lt)

theorem lt_of_not_le (ha : val a = some u) (hb : val b = some v) (no_le : ¬ b ≤ a) : a < b := by
  rw [compares.le_of_val hb ha] at no_le
  exact (compares.lt_of_val ha hb).2 (not_le.1 no_le)

end Scalar.ComparesBy

theorem Scalar.comparesBy_real : Scalar.ComparesBy (fun x : ℝ => some x) where
  le_iff _ _ := by simp
  lt_iff _ _ := by simp

namespace Interpolation

variable {α : Type} [Scalar α]

theorem upperIndex_few {x : α} {nodes : List α} (few : nodes.length < 2) :
    upperIndex x nodes = .error .fewNodes := by
  match nodes, few with
  | [], _ => rfl
  | [_], _ => rfl

theorem upperIndex_outside {x first second : α} {rest : List α}
    (outside : ¬ (first ≤ x ∧ x ≤ (second :: rest).getLastD second)) :
    upperIndex x (first :: second :: rest) = .error (.outsideNodes (Scalar.text x)
      (Scalar.text first) (Scalar.text ((second :: rest).getLastD second))) := by
  have refused : (decide (first ≤ x) && decide (x ≤ (second :: rest).getLastD second)) = false := by
    rw [Bool.and_eq_false_iff, decide_eq_false_iff_not, decide_eq_false_iff_not]
    exact not_and_or.1 outside
  simp only [upperIndex]
  rw [refused]
  rfl

theorem upperIndex_inside {x first second : α} {rest : List α} (low : first ≤ x)
    (high : x ≤ (second :: rest).getLastD second) :
    upperIndex x (first :: second :: rest) =
      .ok (if Scalar.same x first then 1 else (second :: rest).findIdx (fun n => !decide (n < x)) + 1) := by
  have accepted : (decide (first ≤ x) && decide (x ≤ (second :: rest).getLastD second)) = true := by
    rw [Bool.and_eq_true, decide_eq_true_iff, decide_eq_true_iff]
    exact ⟨low, high⟩
  simp only [upperIndex]
  rw [accepted]
  simp only [Bool.not_true, Bool.false_eq_true, if_false]
  split <;> rfl

omit [Scalar α] in
theorem getElem_last (first second : α) (rest : List α) :
    (first :: second :: rest)[(first :: second :: rest).length - 1] = (second :: rest).getLastD second := by
  simp [List.getLastD_eq_getLast?, List.getLast?_eq_getElem?]

theorem scan_stops (x : α) (L : List α) {p : Nat} (found : p = L.findIdx (fun n => !decide (n < x)))
    (inside : p < L.length) : ¬ L[p] < x ∧ ∀ q (before : q < p), L[q] < x := by
  subst found
  refine ⟨by simpa using List.findIdx_getElem (w := inside), fun q before => ?_⟩
  simpa using List.not_of_lt_findIdx before

section Scan

variable {β : Type} [LinearOrder β] {val : α → Option β} (compares : Scalar.ComparesBy val)
  {x second : α} {rest : List α}

include compares

theorem findIdx_lt_length (high : x ≤ (second :: rest).getLastD second) :
    (second :: rest).findIdx (fun n => !decide (n < x)) < (second :: rest).length := by
  have last_mem : (second :: rest).getLastD second ∈ second :: rest := by
    rw [List.getLastD_cons]
    exact List.getLastD_mem_cons
  refine List.findIdx_lt_length_of_exists ⟨_, last_mem, ?_⟩
  rw [Bool.not_eq_true', decide_eq_false_iff_not]
  exact compares.not_lt_of_le high

theorem brackets_at_first {x first second : α} (at_first : Scalar.same x first = true)
    (low : first ≤ x) (ordered : first ≤ second) :
    first ≤ x ∧ x ≤ second ∧
      (first < second ↔ ¬ (Scalar.same x first = true ∧ Scalar.same first second = true)) := by
  have up : x ≤ first := (by simpa [Scalar.same] using at_first : x ≤ first ∧ first ≤ x).1
  have equal_iff : Scalar.same first second = true ↔ second ≤ first := by
    simp [Scalar.same, ordered]
  obtain ⟨u, v, hu, hv, -⟩ := compares.vals_of_le ordered
  refine ⟨low, compares.le_trans up ordered, ?_⟩
  simp only [at_first, true_and, equal_iff]
  exact ⟨fun below back => compares.not_lt_of_le back below, compares.lt_of_not_le hu hv⟩

theorem brackets_past_first {x : α} {nodes : List α} {p : Nat} (inside : p + 1 < nodes.length)
    (past : ¬ Scalar.same x nodes[0] = true) (low : nodes[0] ≤ x) (stops : ¬ nodes[p + 1] < x)
    (passed : ∀ q (before : q < p), nodes[q + 1] < x) (ordered : nodes[p] ≤ nodes[p + 1]) :
    nodes[p] ≤ x ∧ x ≤ nodes[p + 1] ∧ nodes[p] < nodes[p + 1] := by
  obtain ⟨-, w, -, hw, -⟩ := compares.vals_of_le ordered
  obtain ⟨u, ux, hu, hx, -⟩ := compares.vals_of_le low
  -- the lower end is below `x`: the first node because `x` is not it, a later one because the
  -- scan passed it
  have below : nodes[p] < x := by
    cases p with
    | zero => exact compares.lt_of_not_le hu hx fun up => past (by simp [Scalar.same, up, low])
    | succ q => exact passed q (by omega)
  have above : x ≤ nodes[p + 1] := compares.le_of_not_lt hx hw stops
  exact ⟨compares.le_of_lt below, above, compares.lt_of_lt_of_le below above⟩

end Scan

end Interpolation

/-- Where linear interpolation finds the segment of an abscissa. Take any nodes, in any order and
with any values, over a carrier whose values compare as what they stand for in a linear order, a
NaN comparing false with everything (IEEE doubles do, through the extended reals). Fewer than two
nodes, and an abscissa not within the first and the last node, are refused as value errors.
Otherwise the position `i` returned has `1 ≤ i ≤ n - 1`, so both ends of the segment are nodes and
the methods read them. Over non-decreasing nodes the segment holds the abscissa, and it has zero
width exactly when the abscissa equals the first node and the second node equals the first. -/
theorem upperIndex_finds_segment {α β : Type} [Scalar α] [LinearOrder β] {val : α → Option β}
    (compares : Scalar.ComparesBy val) (x : α) (nodes : List α) :
    (nodes.length < 2 →
      ∃ f, Interpolation.upperIndex x nodes = .error f ∧ f.category = "ValueError") ∧
    ∀ two : 2 ≤ nodes.length,
      (¬ (nodes[0] ≤ x ∧ x ≤ nodes[nodes.length - 1]) →
        ∃ f, Interpolation.upperIndex x nodes = .error f ∧ f.category = "ValueError") ∧
      (nodes[0] ≤ x → x ≤ nodes[nodes.length - 1] →
        ∃ i, Interpolation.upperIndex x nodes = .ok i ∧ ∃ (pos : 1 ≤ i) (inside : i < nodes.length),
          (∀ ar, Interpolation.segment ar nodes i = .ok (nodes[i - 1], nodes[i])) ∧
          ((∀ j (next : j + 1 < nodes.length), nodes[j] ≤ nodes[j + 1]) →
            nodes[i - 1] ≤ x ∧ x ≤ nodes[i] ∧
            (nodes[i - 1] < nodes[i] ↔
              ¬ (Scalar.same x nodes[0] = true ∧ Scalar.same nodes[0] nodes[1] = true)))) := by
  refine ⟨fun few => ⟨_, Interpolation.upperIndex_few few, rfl⟩, fun two => ?_⟩
  match nodes, two with
  | first :: second :: rest, _ =>
  simp only [Interpolation.getElem_last, List.getElem_cons_zero]
  refine ⟨fun outside => ⟨_, Interpolation.upperIndex_outside outside, rfl⟩, fun low high => ?_⟩
  by_cases at_first : Scalar.same x first = true
  · -- the abscissa is the first node: the first segment
    have within : 1 < (first :: second :: rest).length := by simp
    refine ⟨1, by rw [Interpolation.upperIndex_inside low high, if_pos at_first], Nat.le_refl 1,
      within, fun ar => Interpolation.segment_eq ar Nat.one_pos within, fun ordered => ?_⟩
    simpa using Interpolation.brackets_at_first compares at_first low (ordered 0 (by simp))
  · -- past the first node: the scan stops at the first node not below the abscissa
    set p := (second :: rest).findIdx (fun n => !decide (n < x)) with found
    have inside : p < (second :: rest).length := Interpolation.findIdx_lt_length compares high
    obtain ⟨stops, passed⟩ := Interpolation.scan_stops x (second :: rest) found inside
    have within : p + 1 < (first :: second :: rest).length := by simpa using inside
    have pos : 0 < p + 1 := Nat.succ_pos p
    refine ⟨p + 1, by rw [Interpolation.upperIndex_inside low high, if_neg at_first],
      Nat.le_add_left 1 p, within, fun ar => Interpolation.segment_eq ar pos within,
      fun ordered => ?_⟩
    have brackets := Interpolation.brackets_past_first compares within
      (by simpa using at_first) (by simpa using low) (by simpa using stops)
      (fun q before => by simpa using passed q before) (ordered p within)
    simpa [at_first] using brackets

theorem upperIndex_finds_segment_on_three_nodes :
    let x : ℝ := 1
    let nodes : List ℝ := [0, 1, 2]
    Scalar.ComparesBy (fun y : ℝ => some y) ∧
    (nodes.length < 2 →
      ∃ f, Interpolation.upperIndex x nodes = .error f ∧ f.category = "ValueError") ∧
    ∀ two : 2 ≤ nodes.length,
      (¬ (nodes[0] ≤ x ∧ x ≤ nodes[nodes.length - 1]) →
        ∃ f, Interpolation.upperIndex x nodes = .error f ∧ f.category = "ValueError") ∧
      (nodes[0] ≤ x → x ≤ nodes[nodes.length - 1] →
        ∃ i, Interpolation.upperIndex x nodes = .ok i ∧ ∃ (pos : 1 ≤ i) (inside : i < nodes.length),
          (∀ ar, Interpolation.segment ar nodes i = .ok (nodes[i - 1], nodes[i])) ∧
          ((∀ j (next : j + 1 < nodes.length), nodes[j] ≤ nodes[j + 1]) →
            nodes[i - 1] ≤ x ∧ x ≤ nodes[i] ∧
            (nodes[i - 1] < nodes[i] ↔
              ¬ (Scalar.same x nodes[0] = true ∧ Scalar.same nodes[0] nodes[1] = true)))) :=
  ⟨Scalar.comparesBy_real, upperIndex_finds_segment Scalar.comparesBy_real 1 [0, 1, 2]⟩

end AdjointDiff
