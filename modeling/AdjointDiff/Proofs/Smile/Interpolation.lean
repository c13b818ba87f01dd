import Mathlib.Data.List.Sort
import AdjointDiff.Proofs.Real.Readout

set_option autoImplicit false

namespace AdjointDiff

open Recorder StraightLine

theorem Arith.get_eq_ok {β : Type} (ar : Arith) {xs : List β} {i : Nat} (inside : i < xs.length) :
    ar.get xs i = .ok xs[i] := by
  cases ar <;> simp [Arith.get, elementAt, inside]

theorem elementAt_eq_ok {β : Type} {xs : List β} {i : Nat} (inside : i < xs.length) :
    elementAt xs i = .ok xs[i] := by
  simp [elementAt, inside]

theorem Arith.div_real_eq_ok (ar : Arith) (a : ℝ) {b : ℝ} (nonzero : b ≠ 0) :
    ar.div a b = .ok (a / b) := by
  cases ar <;> simp [Arith.div, nonzero]

theorem sum_modify_add (l : List ℝ) {k : Nat} (inside : k < l.length) (a : ℝ) :
    (l.modify k (· + a)).sum = l.sum + a := by
  induction l generalizing k with
  | nil => simp at inside
  | cons b l ih =>
    cases k with
    | zero => simp; ring
    | succ k =>
      simp only [List.modify_succ_cons, List.sum_cons, ih (by simpa using inside)]
      ring

theorem sum_zipWith_modify_add (l v : List ℝ) {k : Nat} (inside : k < l.length)
    (inside_v : k < v.length) (a : ℝ) :
    (List.zipWith (· * ·) (l.modify k (· + a)) v).sum = (List.zipWith (· * ·) l v).sum + a * v[k] := by
  induction l generalizing k v with
  | nil => simp at inside
  | cons b l ih =>
    cases v with
    | nil => simp at inside_v
    | cons c v =>
      cases k with
      | zero => simp; ring
      | succ k =>
        simp only [List.modify_succ_cons, List.zipWith_cons_cons, List.sum_cons,
          ih v (by simpa using inside) (by simpa using inside_v), List.getElem_cons_succ]
        ring

theorem sum_zipWith_replicate_zero (n : Nat) (v : List ℝ) :
    (List.zipWith (· * ·) (List.replicate n (0 : ℝ)) v).sum = 0 := by
  induction n generalizing v with
  | zero => simp
  | succ n ih => cases v <;> simp [List.replicate_succ, ih]

namespace Interpolation

def segmentWeights (n i : Nat) (t : ℝ) : List ℝ :=
  (((List.replicate n 0).modify (i - 1) (· + 1)).modify i (· + t)).modify (i - 1) (· + -t)

section Weights

variable {n i : Nat} (t : ℝ)

@[simp] theorem length_segmentWeights : (segmentWeights n i t).length = n := by
  simp [segmentWeights]

theorem segmentWeights_getElem (pos : 0 < i) (j : Nat) (inside : j < (segmentWeights n i t).length) :
    (segmentWeights n i t)[j] = if j = i - 1 then 1 - t else if j = i then t else 0 := by
  simp only [segmentWeights, List.getElem_modify, List.getElem_replicate]
  by_cases lower : j = i - 1
  · have upper : i ≠ j := by omega
    simp [lower, show i ≠ i - 1 by omega]
    ring
  · by_cases upper : j = i
    · simp [upper, show i ≠ i - 1 by omega, show i - 1 ≠ i by omega]
    · simp [lower, upper, Ne.symm lower, Ne.symm upper]

theorem sum_segmentWeights (pos : 0 < i) (inside : i < n) : (segmentWeights n i t).sum = 1 := by
  simp only [segmentWeights]
  rw [sum_modify_add _ (by simp; omega), sum_modify_add _ (by simp; omega),
    sum_modify_add _ (by simp; omega), List.sum_replicate, smul_zero]
  ring

theorem sum_zipWith_segmentWeights (pos : 0 < i) (inside : i < n) (v : List ℝ)
    (length : v.length = n) :
    (List.zipWith (· * ·) (segmentWeights n i t) v).sum = (1 - t) * v[i - 1] + t * v[i] := by
  simp only [segmentWeights]
  rw [sum_zipWith_modify_add _ _ (by simp; omega) (by omega),
    sum_zipWith_modify_add _ _ (by simp; omega) (by omega),
    sum_zipWith_modify_add _ _ (by simp; omega) (by omega), sum_zipWith_replicate_zero]
  ring

end Weights

theorem upperIndex_brackets {x : ℝ} {nodes : List ℝ} (sorted : nodes.SortedLE)
    (two : 2 ≤ nodes.length) (low : nodes[0] ≤ x) (high : x ≤ nodes[nodes.length - 1]) :
    ∃ i, upperIndex x nodes = .ok i ∧ 0 < i ∧
      ∃ inside : i < nodes.length, nodes[i - 1] ≤ x ∧ x ≤ nodes[i] := by
  match nodes, two with
  | first :: second :: rest, _ =>
  have last : (second :: rest).getLast?.getD second = (second :: rest)[rest.length] := by
    simp [List.getLast?_eq_getElem?]
  simp only [List.getElem_cons_zero, List.length_cons, Nat.add_sub_cancel,
    List.getElem_cons_succ] at low high
  by_cases at_first : x = first
  · -- the first node takes the first segment
    rw [at_first] at high
    have ordered : (first :: second :: rest)[0] ≤ (first :: second :: rest)[1] :=
      sorted.getElem_le_getElem_of_le (by omega)
    exact ⟨1, by simp [upperIndex, Scalar.same, last, high, at_first], Nat.one_pos, by simp,
      by simp [at_first], by simpa [at_first] using ordered⟩
  · -- otherwise the first node at or above `x` closes the segment
    set p := (second :: rest).findIdx (fun n => !decide (n < x)) with p_def
    have found : p < (second :: rest).length :=
      List.findIdx_lt_length_of_exists ⟨(second :: rest)[rest.length], by simp, by simpa using high⟩
    have apart : ¬x ≤ first := fun le => at_first (le_antisymm le low)
    refine ⟨p + 1, by simp [upperIndex, Scalar.same, last, low, high, apart, p_def], by omega,
      by simpa using found, ?_, by simpa using List.findIdx_getElem (w := found)⟩
    simp only [Nat.add_sub_cancel]
    rw [List.getElem_cons]
    split_ifs with zero
    · exact low
    · have earlier : p - 1 < (second :: rest).findIdx (fun n => !decide (n < x)) := by
        rw [← p_def]
        omega
      have before : (second :: rest)[p - 1] < x := by simpa using List.not_of_lt_findIdx earlier
      exact before.le

theorem segment_eq {α : Type} [Scalar α] (ar : Arith) {nodes : List α} {i : Nat} (pos : 0 < i)
    (inside : i < nodes.length) :
    segment ar nodes i = .ok (nodes[i - 1], nodes[i]) := by
  simp [segment, Arith.get_eq_ok ar inside, Arith.get_eq_ok ar (show i - 1 < nodes.length by omega),
    bind, Except.bind, pure, Except.pure]

section Segment

variable (ar : Arith) {x : ℝ} {nodes values : List ℝ} {i : Nat} (pos : 0 < i)
  (inside : i < nodes.length) (lengths : values.length = nodes.length)

include pos inside lengths in
theorem interpolate_eq (index : upperIndex x nodes = .ok i) (width : nodes[i - 1] < nodes[i]) :
    interpolate ar x nodes values = .ok (values[i - 1] +
      (x - nodes[i - 1]) * ((values[i] - values[i - 1]) * (1 / (nodes[i] - nodes[i - 1])))) := by
  simp only [interpolate, index, bind, Except.bind]
  rw [segment_eq ar pos inside]
  simp [Arith.div_real_eq_ok ar _ (sub_pos.2 width).ne',
    Arith.get_eq_ok ar (show i < values.length by omega),
    Arith.get_eq_ok ar (show i - 1 < values.length by omega), pure, Except.pure]

include pos inside lengths in
theorem derivativeX_eq (index : upperIndex x nodes = .ok i) (width : nodes[i - 1] < nodes[i]) :
    derivativeX ar x nodes values =
      .ok ((values[i] - values[i - 1]) / (nodes[i] - nodes[i - 1])) := by
  simp only [derivativeX, index, bind, Except.bind]
  rw [segment_eq ar pos inside]
  simp [Arith.div_real_eq_ok ar _ (sub_pos.2 width).ne',
    Arith.get_eq_ok ar (show i < values.length by omega),
    Arith.get_eq_ok ar (show i - 1 < values.length by omega)]

include pos inside lengths in
theorem interpolateAdjoint_eq (index : upperIndex x nodes = .ok i) (width : nodes[i - 1] < nodes[i]) :
    interpolateAdjoint ar x nodes values = .ok (values[i - 1] +
      (x - nodes[i - 1]) * ((values[i] - values[i - 1]) * (1 / (nodes[i] - nodes[i - 1]))),
      segmentWeights values.length i ((x - nodes[i - 1]) / (nodes[i] - nodes[i - 1]))) := by
  simp only [interpolateAdjoint, index, bind, Except.bind]
  rw [segment_eq ar pos inside]
  simp [Arith.div_real_eq_ok ar 1 (sub_pos.2 width).ne',
    Arith.get_eq_ok ar (show i < values.length by omega),
    Arith.get_eq_ok ar (show i - 1 < values.length by omega), pure, Except.pure, segmentWeights]
  simp only [div_eq_inv_mul]

end Segment

noncomputable def calls (num lo : ℝ) : List Call :=
  [.sub 1 0, .mulConst 3 num, .subConst 2 lo, .mul 4 5, .add 0 6]

theorem reads_before (num lo : ℝ) : ReadsBefore 3 (calls num lo) := by
  simp [calls, ReadsBefore, Call.operands]

theorem recorded_eq_recordFrom (ar : Arith) (z : Nat → ℝ) (n : Nat) {x : Var ℝ} {nodes : List ℝ}
    {values : List (Var ℝ)} {i : Nat} (index : upperIndex x.value nodes = .ok i) (pos : 0 < i)
    (inside : i < nodes.length) (lengths : values.length = nodes.length)
    (width : nodes[i - 1] < nodes[i]) :
    recorded ar x nodes values =
      recordFrom z n [values[i - 1], values[i], x] (calls (1 / (nodes[i] - nodes[i - 1])) nodes[i - 1]) >>=
        fun ws => pure (ws.getD 7 ⟨0, 0⟩) := by
  simp [recorded, index, elementAt_eq_ok (show i < values.length by omega),
    elementAt_eq_ok (show i - 1 < values.length by omega), segment_eq ar pos inside,
    Arith.div_real_eq_ok ar 1 (sub_pos.2 width).ne', Recorder.lift, calls, recordFrom, Call.record]

theorem yields_recorded (ar : Arith) {t : Tape ℝ} {r n : Nat} (clean : t.Clean)
    (count : t.inputRank t.size = n) {h : Var ℝ} {hs : List (Var ℝ)} {d : ℝ × ℝ}
    {ds : List (ℝ × ℝ)} (tracks : Tracks t r h d) (tracked : List.Forall₂ (Tracks t r) hs ds)
    {nodes : List ℝ} (sorted : nodes.SortedLT) (two : 2 ≤ nodes.length)
    (lengths : ds.length = nodes.length) (low : nodes[0] ≤ d.1)
    (high : d.1 ≤ nodes[nodes.length - 1]) :
    ∃ v w slope, interpolate ar d.1 nodes (ds.map Prod.fst) = .ok v ∧
      interpolateAdjoint ar d.1 nodes (ds.map Prod.fst) = .ok (v, w) ∧
      derivativeX ar d.1 nodes (ds.map Prod.fst) = .ok slope ∧
      Yields r n (recorded ar h nodes hs) t
        (v, slope * d.2 + (List.zipWith (· * ·) w (ds.map Prod.snd)).sum) := by
  obtain ⟨i, index, pos, inside, -, -⟩ := upperIndex_brackets sorted.sortedLE two low high
  have width : nodes[i - 1] < nodes[i] := sorted.getElem_lt_getElem_of_lt (by omega)
  have handles : hs.length = ds.length := tracked.length_eq
  have values : (ds.map Prod.fst).length = nodes.length := by simpa using lengths
  refine ⟨_, _, _, interpolate_eq ar pos inside values index width,
    interpolateAdjoint_eq ar pos inside values index width,
    derivativeX_eq ar pos inside values index width, ?_⟩
  -- the calls read the handles on the segment's two values and on the abscissa
  have ends : List.Forall₂ (Tracks t r) [hs[i - 1], hs[i], h] [ds[i - 1], ds[i], d] :=
    .cons (by simpa using tracked.get (i := i - 1) (by omega) (by omega))
      (.cons (by simpa using tracked.get (i := i) (by omega) (by omega)) (.cons tracks .nil))
  have yields := yields_recordFrom_last (fun _ => 0) (calls (1 / (nodes[i] - nodes[i - 1])) nodes[i - 1])
    clean count (tracksAll_of_forall₂ ends) (reads_before _ _).getElem? (by simp [calls])
  rw [recorded_eq_recordFrom ar (fun _ => 0) n (tracks.2.1 ▸ index) pos inside (by omega) width]
  have weighed := sum_zipWith_segmentWeights ((d.1 - nodes[i - 1]) / (nodes[i] - nodes[i - 1])) pos
    (show i < ds.length by omega) (ds.map Prod.snd) (by simp)
  convert yields using 1
  · simp [calls, inputCount, Call.isInput]
  · simp [calls]
  · -- the value and the rate of the last call, against the weights of the segment's ends
    simp only [List.length_map, weighed, List.getElem_map]
    simp [calls, dualFrom, Call.dual]
    constructor <;> ring

theorem interpolate_node (ar : Arith) {nodes values : List ℝ} (sorted : nodes.SortedLT)
    (two : 2 ≤ nodes.length) (lengths : values.length = nodes.length) {j : Nat}
    (inside : j < nodes.length) : interpolate ar nodes[j] nodes values = .ok values[j] := by
  obtain ⟨i, index, pos, within, lo_le, le_hi⟩ := upperIndex_brackets sorted.sortedLE two
    (sorted.sortedLE.getElem_le_getElem_of_le (Nat.zero_le j))
    (sorted.sortedLE.getElem_le_getElem_of_le (show j ≤ nodes.length - 1 by omega))
  have width : nodes[i - 1] < nodes[i] := sorted.getElem_lt_getElem_of_lt (by omega)
  rw [interpolate_eq ar pos within lengths index width]
  -- strictly increasing nodes order as their positions do
  have above : i - 1 ≤ j := (sorted.strictMono_get.le_iff_le (a := ⟨i - 1, by omega⟩) (b := ⟨j, inside⟩)).1 lo_le
  have below : j ≤ i := (sorted.strictMono_get.le_iff_le (a := ⟨j, inside⟩) (b := ⟨i, within⟩)).1 le_hi
  rcases (show j = i - 1 ∨ j = i by omega) with lower | upper
  · subst lower
    simp
  · subst upper
    congr 1
    field_simp [(sub_pos.2 width).ne']
    ring

theorem answers (ar : Arith) {x : ℝ} {nodes values : List ℝ} (sorted : nodes.SortedLT)
    (two : 2 ≤ nodes.length) (lengths : values.length = nodes.length) (low : nodes[0] ≤ x)
    (high : x ≤ nodes[nodes.length - 1]) :
    ∃ v w slope, interpolate ar x nodes values = .ok v ∧
      interpolateAdjoint ar x nodes values = .ok (v, w) ∧
      derivativeX ar x nodes values = .ok slope ∧ w.length = values.length := by
  obtain ⟨i, index, pos, inside, -, -⟩ := upperIndex_brackets sorted.sortedLE two low high
  have width : nodes[i - 1] < nodes[i] := sorted.getElem_lt_getElem_of_lt (by omega)
  exact ⟨_, _, _, interpolate_eq ar pos inside lengths index width,
    interpolateAdjoint_eq ar pos inside lengths index width,
    derivativeX_eq ar pos inside lengths index width, length_segmentWeights _⟩

theorem exists_segment_of_infix {nodes : List ℝ} {a b : ℝ} (between : [a, b] <:+: nodes) :
    ∃ i, 0 < i ∧ ∃ inside : i < nodes.length, nodes[i - 1] = a ∧ nodes[i] = b := by
  obtain ⟨front, back, rfl⟩ := between
  refine ⟨front.length + 1, Nat.succ_pos _, by simp, ?_, ?_⟩ <;> simp

theorem upperIndex_of_inside {x : ℝ} {nodes : List ℝ} (sorted : nodes.SortedLT) {i : Nat}
    (pos : 0 < i) (inside : i < nodes.length) (above : nodes[i - 1] < x) (below : x < nodes[i]) :
    upperIndex x nodes = .ok i := by
  have low : nodes[0] ≤ x :=
    (sorted.sortedLE.getElem_le_getElem_of_le (Nat.zero_le (i - 1))).trans above.le
  have high : x ≤ nodes[nodes.length - 1] :=
    below.le.trans (sorted.sortedLE.getElem_le_getElem_of_le (by omega))
  obtain ⟨j, index, -, within, lo_le, le_hi⟩ :=
    upperIndex_brackets sorted.sortedLE (by omega) low high
  -- strictly increasing nodes order as their positions do, so the two segments are one
  have after : i - 1 < j := (sorted.strictMono_get.lt_iff_lt (a := ⟨i - 1, by omega⟩)
    (b := ⟨j, within⟩)).1 (above.trans_le le_hi)
  have before : j - 1 < i := (sorted.strictMono_get.lt_iff_lt (a := ⟨j - 1, by omega⟩)
    (b := ⟨i, inside⟩)).1 (lo_le.trans_lt below)
  rw [index, show j = i by omega]

theorem interpolate_map_affine (ar : Arith) {nodes values : List ℝ} (sorted : nodes.SortedLT)
    (lengths : values.length = nodes.length) {f : ℝ → ℝ} {c b : ℝ} (scale : 0 < c)
    (affine : ∀ n, f n = c * n + b) {i : Nat} (pos : 0 < i) (inside : i < nodes.length) {x y : ℝ}
    (above : nodes[i - 1] < y) (below : y < nodes[i]) (image : f y = x) :
    interpolate ar x (nodes.map f) values = interpolate ar y nodes values := by
  subst image
  have increasing : StrictMono f := fun m n lt => by
    rw [affine, affine]
    gcongr
  have sorted' : (nodes.map f).SortedLT := List.sortedLT_iff_pairwise.2
    (List.pairwise_map.2 ((List.sortedLT_iff_pairwise.1 sorted).imp fun lt => increasing lt))
  have inside' : i < (nodes.map f).length := by simpa using inside
  have lengths' : values.length = (nodes.map f).length := by simpa using lengths
  have above' : (nodes.map f)[i - 1] < f y := by simpa using increasing above
  have below' : f y < (nodes.map f)[i] := by simpa using increasing below
  rw [interpolate_eq ar pos inside' lengths' (upperIndex_of_inside sorted' pos inside' above' below')
      (above'.trans below'),
    interpolate_eq ar pos inside lengths (upperIndex_of_inside sorted pos inside above below)
      (above.trans below)]
  have width : nodes[i] - nodes[i - 1] ≠ 0 := (sub_pos.2 (above.trans below)).ne'
  have moved : c * nodes[i] + b - (c * nodes[i - 1] + b) = c * (nodes[i] - nodes[i - 1]) := by ring
  have nonzero : c ≠ 0 := scale.ne'
  simp only [List.getElem_map, affine, moved]
  congr 1
  field_simp
  ring

end Interpolation

namespace InterpolationMethod

theorem recorded_evaluate {x : ℝ} {nodes values : List ℝ} (sorted : nodes.SortedLT)
    (two : 2 ≤ nodes.length) (lengths : values.length = nodes.length) (low : nodes[0] ≤ x)
    (high : x ≤ nodes[nodes.length - 1]) {v slope : ℝ} {w : List ℝ}
    (adjoint : Interpolation.interpolateAdjoint .checked x nodes values = .ok (v, w))
    (derivative : Interpolation.derivativeX .checked x nodes values = .ok slope)
    (weights : w.length = values.length) :
    ∃ summary, recorded.evaluate x nodes values = .ok (.onTape v (slope :: w) summary) := by
  have declared : (do Interpolation.recorded .checked (← Record.input x) nodes (← Record.inputs values)) =
      Record.inputs (x :: values) >>= fun hs => Interpolation.recorded .checked (hs.headD ⟨0, 0⟩) nodes hs.tail := by
    simp [Record.inputs, List.mapM_cons]
  simp only [evaluate, declared]
  refine StraightLine.ofRecording_inputs (x :: values) (by simp [weights])
    fun {t r n hs ds} clean count tracked firsts => ?_
  -- the first handle tracks the abscissa, the others the values
  obtain ⟨d, ds, rfl⟩ : ∃ d ds', ds = d :: ds' := List.exists_cons_of_ne_nil (by rintro rfl; simp at firsts)
  cases tracked with
  | cons tracks tracked =>
  simp only [List.map_cons, List.cons.injEq] at firsts
  obtain ⟨rfl, rfl⟩ := firsts
  obtain ⟨v', w', slope', -, adjoint', derivative', yields⟩ := Interpolation.yields_recorded .checked clean
    count tracks tracked sorted two (by simpa using lengths) low high
  rw [adjoint, Except.ok.injEq, Prod.mk.injEq] at adjoint'
  rw [derivative, Except.ok.injEq] at derivative'
  obtain ⟨rfl, rfl⟩ := adjoint'
  subst derivative'
  simpa using yields

end InterpolationMethod

open Interpolation in
/-- The methods of linear interpolation agree. Over strictly increasing nodes and at an abscissa
`x` within them, `upperIndex` returns a segment `i`, and the hand-written adjoint answers the
interpolated value with weights on the values: one per value, zero off the segment's two ends,
nonnegative and summing to one. Weighing any values by them interpolates those values at `x`, and
at a node the interpolation is the value given there. Recorded on a fresh tape after `x` and the
values as inputs, the interpolation answers the same value, the slope `derivativeX` as the
derivative by `x` and the weights as the derivatives by the values. -/
theorem interpolation_methods_agree (ar : Arith) {x : ℝ} {nodes values : List ℝ}
    (sorted : nodes.SortedLT) (two : 2 ≤ nodes.length) (lengths : values.length = nodes.length)
    (low : nodes[0] ≤ x) (high : x ≤ nodes[nodes.length - 1]) :
    ∃ i v w slope, upperIndex x nodes = .ok i ∧
      interpolate ar x nodes values = .ok v ∧
      interpolateAdjoint ar x nodes values = .ok (v, w) ∧
      derivativeX ar x nodes values = .ok slope ∧
      w.length = nodes.length ∧
      (∀ (j : Nat) (inside : j < w.length), j ≠ i - 1 → j ≠ i → w[j] = 0) ∧
      (∀ a ∈ w, 0 ≤ a) ∧ w.sum = 1 ∧
      (∀ values' : List ℝ, values'.length = nodes.length →
        interpolate ar x nodes values' = .ok (List.zipWith (· * ·) w values').sum) ∧
      (∀ (j : Nat) (inside : j < nodes.length),
        interpolate ar nodes[j] nodes values = .ok values[j]) ∧
      ∃ summary, InterpolationMethod.recorded.evaluate x nodes values =
        .ok (.onTape v (slope :: w) summary) := by
  obtain ⟨i, index, pos, inside, lo_le, le_hi⟩ := upperIndex_brackets sorted.sortedLE two low high
  have width : nodes[i - 1] < nodes[i] := sorted.getElem_lt_getElem_of_lt (by omega)
  set t := (x - nodes[i - 1]) / (nodes[i] - nodes[i - 1]) with t_def
  have t_nonneg : 0 ≤ t := div_nonneg (sub_nonneg.2 lo_le) (sub_pos.2 width).le
  have t_le_one : t ≤ 1 := (div_le_one (sub_pos.2 width)).2 (by linarith)
  have within : i < values.length := by omega
  refine ⟨i, _, segmentWeights values.length i t, _, index,
    interpolate_eq ar pos inside lengths index width,
    interpolateAdjoint_eq ar pos inside lengths index width,
    derivativeX_eq ar pos inside lengths index width, by simp [lengths], ?_, ?_,
    sum_segmentWeights t pos within, ?_, fun j inside => interpolate_node ar sorted two lengths inside,
    InterpolationMethod.recorded_evaluate sorted two lengths low high
      (interpolateAdjoint_eq .checked pos inside lengths index width)
      (derivativeX_eq .checked pos inside lengths index width) (by simp)⟩
  · intro j inside lower upper
    rw [segmentWeights_getElem t pos]
    simp [lower, upper]
  · intro a mem
    obtain ⟨j, inside, rfl⟩ := List.getElem_of_mem mem
    rw [segmentWeights_getElem t pos]
    split_ifs <;> linarith
  · intro values' length'
    rw [interpolate_eq ar pos inside length' index width,
      sum_zipWith_segmentWeights t pos within values' (by omega), t_def]
    congr 1
    ring

theorem interpolation_methods_agree_on_three_nodes :
    let nodes : List ℝ := [0, 1, 2]
    let values : List ℝ := [1, 3, 2]
    (nodes.SortedLT ∧ 2 ≤ nodes.length ∧ values.length = nodes.length ∧ nodes[0] ≤ 1 / 2 ∧
      (1 / 2 : ℝ) ≤ nodes[nodes.length - 1]) ∧
    ∃ i v w slope, Interpolation.upperIndex (1 / 2) nodes = .ok i ∧
      Interpolation.interpolate .checked (1 / 2) nodes values = .ok v ∧
      Interpolation.interpolateAdjoint .checked (1 / 2) nodes values = .ok (v, w) ∧
      Interpolation.derivativeX .checked (1 / 2) nodes values = .ok slope ∧
      w.length = nodes.length ∧
      (∀ (j : Nat) (inside : j < w.length), j ≠ i - 1 → j ≠ i → w[j] = 0) ∧
      (∀ a ∈ w, 0 ≤ a) ∧ w.sum = 1 ∧
      (∀ values' : List ℝ, values'.length = nodes.length →
        Interpolation.interpolate .checked (1 / 2) nodes values' =
          .ok (List.zipWith (· * ·) w values').sum) ∧
      (∀ (j : Nat) (inside : j < nodes.length),
        Interpolation.interpolate .checked nodes[j] nodes values = .ok values[j]) ∧
      ∃ summary, InterpolationMethod.recorded.evaluate (1 / 2) nodes values =
        .ok (.onTape v (slope :: w) summary) := by
  intro nodes values
  have sorted : nodes.SortedLT := List.sortedLT_iff_pairwise.2 (by norm_num [nodes])
  have low : nodes[0] ≤ 1 / 2 := by norm_num [nodes]
  have high : (1 / 2 : ℝ) ≤ nodes[nodes.length - 1] := by norm_num [nodes]
  have lengths : values.length = nodes.length := rfl
  exact ⟨⟨sorted, by decide, lengths, low, high⟩,
    interpolation_methods_agree .checked sorted (by decide) lengths low high⟩

end AdjointDiff
