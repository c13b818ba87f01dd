import AdjointDiff.Proofs.Real.Linear
import AdjointDiff.Proofs.Real.Chain

set_option autoImplicit false

namespace AdjointDiff

open Recorder

namespace StraightLine

noncomputable def readOut (m : Recorder ℝ (Var ℝ)) : Except Fault (ℝ × List ℝ) :=
  (run (do
    let y ← m
    Tape.interpret (some y.index)
    let t ← get
    let g ← Recorder.lift t.gradient?
    pure (y.value, g)) Tape.empty).1

theorem readOut_eq {m : Recorder ℝ (Var ℝ)} {k : Nat} {d : Nat → ℝ × ℝ}
    (yields : ∀ r, Yields r k m Tape.empty (d r)) :
    readOut m = .ok ((d 0).1, (List.range k).map fun r => (d r).2) := by
  obtain ⟨v, u, ran, clean, count, -, tracks, last⟩ := yields 0
  have within : v.index.toNat < u.size := by omega
  have rate (r : Nat) : u.tangent r v.index.toNat = (d r).2 :=
    ((yields r).tracks_of_run ran).2.2
  simp only [readOut]
  rw [run_bind_of_ok ran, run_bind_of_ok (Tape.run_interpret_some clean tracks.1.1 within),
    run_seq_get, run_bind, run_lift, Tape.gradient?_swept clean within]
  simp only [run_pure, count, rate, tracks.2.1]

theorem readOut_inputs {record : List (Var ℝ) → Recorder ℝ (Var ℝ)} (xs : List ℝ)
    {value : ℝ} {g : List ℝ} (length : g.length = xs.length)
    (yields : ∀ {t : Tape ℝ} {r n : Nat} {hs : List (Var ℝ)} {ds : List (ℝ × ℝ)}, t.Clean →
      t.inputRank t.size = n → List.Forall₂ (Tracks t r) hs ds → ds.map Prod.fst = xs →
      Yields r n (record hs) t (value, (List.zipWith (· * ·) g (ds.map Prod.snd)).sum)) :
    readOut (Record.inputs xs >>= record) = .ok (value, g) := by
  rw [readOut_eq (yields_inputs xs yields), ← length, map_sum_zipWith_unit]

theorem sum_zipWith_range (f : Nat → ℝ) (l : List ℝ) :
    (List.zipWith (· * ·) ((List.range l.length).map f) l).sum =
      ∑ i ∈ Finset.range l.length, f i * l.getD i 0 := by
  have pointwise : List.zipWith (· * ·) ((List.range l.length).map f) l =
      (List.range l.length).map fun i => f i * l.getD i 0 := by
    apply List.ext_getElem (by simp)
    intro i _ inside
    simp only [List.length_map, List.length_range] at inside
    simp [List.getElem?_eq_getElem inside]
  rw [pointwise]
  simp [Finset.sum_eq_multiset_sum, Multiset.range]

/-- A program in three parts: `pre`, among whose handles those at positions `xs` are the
arguments; `body`, a computation from the arguments alone (positions below `xs.length`, then its
own results) that takes no input; and `rest`, which reads the handles of `pre`, the result of
`body` at position `pre.length`, and its own results. -/
structure Splice where
  pre : List Call
  xs : List Nat
  body : List Call
  rest : List Call
  pre_scoped : Scoped pre
  xs_within : ∀ a ∈ xs, a < pre.length
  body_reads : ReadsBefore xs.length body
  body_computes : ∀ c ∈ body, c.isInput = false
  body_nonempty : body ≠ []
  rest_reads : ReadsBefore (pre.length + 1) rest

namespace Splice

variable (s : Splice) (x : Nat → ℝ)

noncomputable def args (i : Nat) : ℝ := value s.pre (s.xs.getD i 0) x

def alone : List Call := List.replicate s.xs.length .input ++ s.body

def out : Nat := s.xs.length + s.body.length - 1

noncomputable def recordWith (inner : List (Var ℝ) → Recorder ℝ (Var ℝ)) : Recorder ℝ (Var ℝ) := do
  let vs ← record x s.pre
  let y ← inner (s.xs.map fun a => vs.getD a ⟨0, 0⟩)
  let ws ← recordFrom x (inputCount s.pre) (vs ++ [y]) s.rest
  pure (ws.getD (s.pre.length + s.rest.length) ⟨0, 0⟩)

noncomputable def inPlace (handles : List (Var ℝ)) : Recorder ℝ (Var ℝ) := do
  let hs ← recordFrom x (inputCount s.pre) handles s.body
  pure (hs.getD s.out ⟨0, 0⟩)

theorem xs_ne_nil : s.xs ≠ [] := by
  obtain ⟨c, cs, split⟩ := List.exists_cons_of_ne_nil s.body_nonempty
  have reads := s.body_reads
  rw [split] at reads
  have computed := s.body_computes c (by simp [split])
  -- a computed call reads some operand, and the first call reads only arguments
  obtain ⟨a, mem⟩ : ∃ a, a ∈ c.operands := by
    cases c <;> simp_all [Call.operands, Call.isInput]
  intro none
  have below := reads.1 a mem
  simp [none] at below

theorem xs_getD_within {k : Nat} (inside : k < s.xs.length) : s.xs.getD k 0 < s.pre.length :=
  s.xs_within _ (by rw [List.getD_eq_getElem _ _ inside]; exact List.getElem_mem inside)

theorem inputCount_body : inputCount s.body = 0 :=
  List.countP_eq_zero.2 fun c mem => by simp [s.body_computes c mem]

theorem alone_scoped : Scoped s.alone := scoped_inputs_append s.body_reads

theorem out_lt : s.out < s.alone.length := by
  have some_call : 0 < s.body.length := List.length_pos_of_ne_nil s.body_nonempty
  simp only [out, alone, List.length_append, List.length_replicate]
  omega

noncomputable def partial_ (i : Nat) : ℝ :=
  ((dualFrom (s.args x) (fun m => if m = i then 1 else 0) 0 [] s.alone).getD s.out (0, 0)).2

theorem gradient_alone :
    gradient s.alone s.out (s.args x) = .ok ((List.range s.xs.length).map (s.partial_ x)) := by
  have count : inputCount s.alone = s.xs.length := by
    rw [alone, inputCount, List.countP_append, ← inputCount, ← inputCount,
      inputCount_replicate_input, s.inputCount_body, Nat.add_zero]
  rw [gradient_eq_rates s.alone_scoped s.out_lt, count]
  rfl

variable {s x} {t : Tape ℝ} {r : Nat} {vs : List (Var ℝ)} {ds : List (ℝ × ℝ)}

theorem tracks_args (tracked : TracksAll t r vs ds) (long : vs.length = s.pre.length) :
    List.Forall₂ (Tracks t r) (s.xs.map fun a => vs.getD a ⟨0, 0⟩)
      (s.xs.map fun a => ds.getD a (0, 0)) :=
  List.forall₂_map_left_iff.2 <| List.forall₂_map_right_iff.2 <| List.forall₂_same.2
    fun a mem => tracked.2 a (long ▸ s.xs_within a mem)

theorem getD_map_of_lt {α β : Type} (f : α → β) {l : List α} {i : Nat} (inside : i < l.length)
    (d : β) (e : α) : (l.map f).getD i d = f (l.getD i e) := by
  simp [List.getD_eq_getElem?_getD, List.getElem?_eq_getElem inside]

theorem rest_reads_after (long : vs.length = s.pre.length) (y : Var ℝ) :
    ∀ (p : Nat) (c : Call), s.rest[p]? = some c → ∀ a ∈ c.operands, a < (vs ++ [y]).length + p :=
  fun p c found a mem => by simpa [long] using s.rest_reads.getElem? p c found a mem

theorem valid_arg (tracked : TracksAll t r vs ds) (long : vs.length = s.pre.length) {k : Nat}
    (inside : k < s.xs.length) : Valid t (vs.getD (s.xs.getD k 0) ⟨0, 0⟩) :=
  (tracked.2 _ (long ▸ s.xs_getD_within inside)).1

variable (s x)

noncomputable def resultDual (r : Nat) : ℝ × ℝ :=
  (value s.alone s.out (s.args x), ∑ i ∈ Finset.range s.xs.length,
    ((dualFrom x (fun m => if m = r then 1 else 0) 0 [] s.pre).getD (s.xs.getD i 0) (0, 0)).2 *
      s.partial_ x i)

variable {s x}

theorem yields_inPlace (clean : t.Clean) (count : t.inputRank t.size = inputCount s.pre)
    (tracked : TracksAll t r vs (dualFrom x (fun m => if m = r then 1 else 0) 0 [] s.pre)) :
    Yields r (inputCount s.pre) (s.inPlace x (s.xs.map fun a => vs.getD a ⟨0, 0⟩)) t
      (s.resultDual x r) := by
  set ds := dualFrom x (fun m => if m = r then 1 else 0) 0 [] s.pre
  have arguments := tracksAll_of_forall₂ (tracks_args tracked (length_of_tracksAll tracked))
  have recorded := yields_recordFrom_last x s.body clean count arguments
    (fun p c found a mem => by simpa using s.body_reads.getElem? p c found a mem) s.body_nonempty
  have position : (s.xs.map fun a => vs.getD a ⟨0, 0⟩).length + s.body.length - 1 = s.out := by
    simp [out]
  rw [s.inputCount_body, Nat.add_zero, position] at recorded
  refine recorded.of_eq ?_
  -- the body's arguments hold the values the prefix gives them
  have values : ∀ i < (s.xs.map fun a => ds.getD a (0, 0)).length,
      s.args x i = ((s.xs.map fun a => ds.getD a (0, 0)).getD i (0, 0)).1 := by
    intro i inside
    simp only [List.length_map] at inside
    rw [getD_map_of_lt _ inside _ 0, args, value_eq_dual s.pre_scoped (s.xs_getD_within inside) x r]
  rw [dualFrom_computation x _ s.body_computes _ _ values s.out]
  simp only [List.length_map, resultDual, partial_]
  refine Prod.ext ?_ ?_
  · rw [value_eq_dual s.alone_scoped s.out_lt _ 0]
    rfl
  · dsimp only
    refine Finset.sum_congr rfl fun i member => ?_
    rw [getD_map_of_lt _ (Finset.mem_range.1 member) _ 0]
    rfl

theorem yields_recordWith {inner : List (Var ℝ) → Recorder ℝ (Var ℝ)} {d : ℝ × ℝ}
    (inner_yields : ∀ (t : Tape ℝ) (vs : List (Var ℝ)), t.Clean →
      t.inputRank t.size = inputCount s.pre →
      TracksAll t r vs (dualFrom x (fun m => if m = r then 1 else 0) 0 [] s.pre) →
      Yields r (inputCount s.pre) (inner (s.xs.map fun a => vs.getD a ⟨0, 0⟩)) t d) :
    Yields r (inputCount s.pre + inputCount s.rest) (s.recordWith x inner) Tape.empty
      ((dualFrom x (fun m => if m = r then 1 else 0) (inputCount s.pre)
        (dualFrom x (fun m => if m = r then 1 else 0) 0 [] s.pre ++ [d]) s.rest).getD
          (s.pre.length + s.rest.length) (0, 0)) := by
  obtain ⟨vs, u, ran, clean, count, tracked⟩ := run_record s.pre_scoped x
  have long := length_of_tracksAll (tracked r)
  refine Yields.of_run_bind ran (Tape.extends_empty u) ((inner_yields u vs clean count (tracked r)).bind
    fun y u' clean' count' ext' tracks last => ?_)
  -- the rest reads the prefix's handles and the inner result, now one list
  have handles := ((tracked r).mono ext' clean.topological).append tracks
  by_cases finished : s.rest = []
  · -- with nothing after it, the inner result is the output
    have rest_count : inputCount s.rest = 0 := by rw [finished]; rfl
    have ended : (vs ++ [y]).getD s.pre.length ⟨0, 0⟩ = y := by rw [← long]; simp
    rw [rest_count, Nat.add_zero]
    simp only [finished, recordFrom, pure_bind, List.length_nil, Nat.add_zero, ended]
    refine (yields_pure clean' count' tracks last).of_eq ?_
    rw [dualFrom, List.getD_append_right _ _ _ _ (by simp [length_dualFrom])]
    simp [length_dualFrom]
  · have recorded := yields_recordFrom_last x s.rest clean' count' handles
      (rest_reads_after long y) finished
    have position : (vs ++ [y]).length + s.rest.length - 1 = s.pre.length + s.rest.length := by
      simp [long]
    rw [position] at recorded
    exact recorded

theorem yields_manualChain_partials (clean : t.Clean)
    (count : t.inputRank t.size = inputCount s.pre)
    (tracked : TracksAll t r vs (dualFrom x (fun m => if m = r then 1 else 0) 0 [] s.pre)) :
    Yields r (inputCount s.pre)
      (Record.manualChain (s.xs.map fun a => vs.getD a ⟨0, 0⟩)
        ((List.range s.xs.length).map (s.partial_ x)) (value s.alone s.out (s.args x))) t
      (s.resultDual x r) := by
  have chained := yields_manualChain clean count (tracks_args tracked (length_of_tracksAll tracked))
    ((List.range s.xs.length).map (s.partial_ x)) (by simp)
    (by simpa using s.xs_ne_nil) (value s.alone s.out (s.args x))
  refine chained.of_eq (Prod.ext rfl ?_)
  have rates := sum_zipWith_range (s.partial_ x)
    ((s.xs.map fun a => (dualFrom x (fun m => if m = r then 1 else 0) 0 [] s.pre).getD a (0, 0)).map
      Prod.snd)
  simp only [List.length_map] at rates
  simp only [rates, resultDual]
  refine Finset.sum_congr rfl fun i member => ?_
  rw [getD_map_of_lt _ (by simpa using member) _ (0, 0), getD_map_of_lt _ (Finset.mem_range.1 member) _ 0,
    mul_comm]

variable (s x)

theorem readOut_inPlace_eq_manualChain :
    ∃ result, readOut (s.recordWith x (s.inPlace x)) = .ok result ∧
      readOut (s.recordWith x fun hs => Record.manualChain hs
        ((List.range s.xs.length).map (s.partial_ x)) (value s.alone s.out (s.args x))) =
        .ok result :=
  ⟨_, readOut_eq fun _ => yields_recordWith fun _ _ clean count tracked =>
      yields_inPlace clean count tracked,
    readOut_eq fun _ => yields_recordWith fun _ _ clean count tracked =>
      yields_manualChain_partials clean count tracked⟩

theorem manualChain_links_swept :
    let ps := (List.range s.xs.length).map (s.partial_ x)
    let swept := (run (do
      let y ← s.recordWith x fun hs => Record.manualChain hs ps (value s.alone s.out (s.args x))
      Tape.interpret (some y.index)) Tape.empty).2
    ∃ vs u, run (record x s.pre) Tape.empty = (.ok vs, u) ∧
      ∀ k < s.xs.length, ∃ e, swept.entries[u.size + k]? = some e ∧ e.kind = .manual ∧
        e.value = value s.alone s.out (s.args x) ∧
        e.adjoint = swept.adjointAt (u.size + s.xs.length - 1) ∧
        e.pulls swept.size swept.valueAt =
          .add (vs.getD (s.xs.getD k 0) ⟨0, 0⟩).index.toNat
              (ps.getD k 0 * swept.adjointAt (u.size + s.xs.length - 1)) ::
            if k = 0 then [] else [.add (u.size + k - 1) (swept.adjointAt (u.size + s.xs.length - 1))] := by
  intro ps swept
  set n := s.xs.length
  have some_argument : 0 < n := List.length_pos_of_ne_nil s.xs_ne_nil
  set v := value s.alone s.out (s.args x)
  set chain : List (Var ℝ) → Recorder ℝ (Var ℝ) := fun hs => Record.manualChain hs ps v
  obtain ⟨vs, u, ran, clean, count, tracked_all⟩ := run_record s.pre_scoped x
  have tracked := tracked_all 0
  have long := length_of_tracksAll tracked
  set args := s.xs.map fun a => vs.getD a ⟨0, 0⟩
  have argument (k : Nat) (inside : k < n) : args.getD k ⟨0, 0⟩ = vs.getD (s.xs.getD k 0) ⟨0, 0⟩ :=
    getD_map_of_lt _ inside _ 0
  have valid : ∀ a ∈ args, 0 ≤ a.index ∧ a.index.toNat < u.size := by
    intro a mem
    obtain ⟨k, inside, rfl⟩ := List.getElem_of_mem mem
    have inside' : k < n := by simpa [args] using inside
    rw [← List.getD_eq_getElem _ ⟨0, 0⟩ inside, argument k inside']
    exact ⟨(valid_arg tracked long inside').1, (valid_arg tracked long inside').2.1⟩
  -- the chain lies right after the prefix
  obtain ⟨w, u₂, chained, size₂, -, links⟩ := Tape.run_manualChain clean.fresh valid ps
    (by simp [args, ps]) (by simpa [args] using s.xs_ne_nil) v
  obtain ⟨w', u₂', chained', clean₂, count₂, ext₂, tracks₂, last₂⟩ :=
    yields_manualChain_partials (r := 0) clean count tracked
  rw [chained] at chained'
  simp only [Prod.mk.injEq, Except.ok.injEq] at chained'
  obtain ⟨rfl, rfl⟩ := chained'
  have size_args : args.length = n := by simp [args, n]
  rw [size_args] at size₂ links
  -- the rest reads the prefix and the chain's result, never its inner links
  have handles := (tracked.mono ext₂ clean.topological).append tracks₂
  have reads := rest_reads_after long w
  obtain ⟨ws, U, rest, -, -, ext₃, -, -⟩ := yields_recordFrom x s.rest clean₂ count₂ handles reads
  have avoids : U.Avoids u.size (u.size + n - 1) := by
    refine avoids_recordFrom x s.rest rest (Tape.avoids_of_size_le (by omega)) (by omega)
      (fun h mem => ?_) reads
    rcases List.mem_append.1 mem with old | new
    · obtain ⟨j, inside, rfl⟩ := List.getElem_of_mem old
      have := (tracked.2 j (by omega)).1.2.1
      rw [List.getD_eq_getElem _ _ inside] at this
      omega
    · simp only [List.mem_singleton] at new
      subst new
      omega
  -- the whole recording is these three runs, and its output is on the last entry
  have whole : run (s.recordWith x chain) Tape.empty =
      (.ok (ws.getD (s.pre.length + s.rest.length) ⟨0, 0⟩), U) := by
    simp only [recordWith, record] at ran ⊢
    rw [run_bind_of_ok ran, run_bind_of_ok chained, run_bind_of_ok rest]
    rfl
  have recorded : Yields 0 (inputCount s.pre + inputCount s.rest) (s.recordWith x chain) Tape.empty _ :=
    yields_recordWith fun _ _ clean count tracked => yields_manualChain_partials clean count tracked
  obtain ⟨o, U', ran_all, clean_all, -, -, tracks_all, last_all⟩ := recorded
  rw [whole] at ran_all
  simp only [Prod.mk.injEq, Except.ok.injEq] at ran_all
  obtain ⟨rfl, rfl⟩ := ran_all
  set o := ws.getD (s.pre.length + s.rest.length) ⟨0, 0⟩
  have swept_eq : swept = { U.withAdjoints (U.sweepAdjoints o.index.toNat) with interpreted := true } := by
    simp only [swept]
    rw [run_bind_of_ok whole, Tape.run_interpret_some clean_all tracks_all.1.1 (by omega)]
  have later : u.size + n - 1 ≤ o.index.toNat := by
    have grown := ext₃.1
    omega
  refine ⟨vs, u, ran, fun k inside => ⟨⟨.manual,
    some (.ofNat (vs.getD (s.xs.getD k 0) ⟨0, 0⟩).index.toNat),
    if k = 0 then none else some (.ofNat (u.size + k - 1)), v, ps.getD k 0,
    swept.adjointAt (u.size + n - 1)⟩, ?_, rfl, rfl, rfl, ?_⟩⟩
  · rw [swept_eq, Tape.swept_chain clean_all (fun j inside_j => by rw [ext₃.2 _ (by omega)]; exact links j inside_j)
      (fun j inside_j => by rw [argument j inside_j]; exact (valid_arg tracked long inside_j).2.1)
      avoids later inside, argument k inside]
  · -- the link finds its argument and the link before it on the swept tape
    have total : u.size + n ≤ swept.size := by
      have grown : u₂.size ≤ U.size := ext₃.1
      have same : swept.size = U.size := by
        rw [swept_eq]
        exact Tape.withAdjoints_size U _
      omega
    have argument_below : (vs.getD (s.xs.getD k 0) ⟨0, 0⟩).index.toNat < swept.size := by
      have := (valid_arg tracked long inside).2.1
      omega
    cases k with
    | zero =>
      simp only [Entry.pulls, Entry.slot, Operand.lookup_ofNat argument_below]
      simp
    | succ k =>
      simp only [Entry.pulls, Entry.slot, Nat.add_one_ne_zero, if_false, Option.isSome_some, if_true,
        Operand.lookup_ofNat argument_below,
        Operand.lookup_ofNat (show u.size + (k + 1) - 1 < swept.size by omega)]

/-- Recording a chain of `manual` entries handed the value and the gradient of a computation, taken
on its own with one input per argument, in place of that computation gives the same output value
and, swept from the output, the same gradient; arguments may repeat. On the swept tape every link
of the chain ends with the adjoint of the last one and passes its partial times that adjoint to its
argument. -/
theorem manualChain_stands_in_for_computation :
    ∃ ps, gradient s.alone s.out (s.args x) = .ok ps ∧ ps.length = s.xs.length ∧
      (∃ result, readOut (s.recordWith x (s.inPlace x)) = .ok result ∧
        readOut (s.recordWith x fun hs =>
          Record.manualChain hs ps (value s.alone s.out (s.args x))) = .ok result) ∧
      let swept := (run (do
        let y ← s.recordWith x fun hs => Record.manualChain hs ps (value s.alone s.out (s.args x))
        Tape.interpret (some y.index)) Tape.empty).2
      ∃ vs u, run (record x s.pre) Tape.empty = (.ok vs, u) ∧
        ∀ k < s.xs.length, ∃ e, swept.entries[u.size + k]? = some e ∧ e.kind = .manual ∧
          e.value = value s.alone s.out (s.args x) ∧
          e.adjoint = swept.adjointAt (u.size + s.xs.length - 1) ∧
          e.pulls swept.size swept.valueAt =
            .add (vs.getD (s.xs.getD k 0) ⟨0, 0⟩).index.toNat
                (ps.getD k 0 * swept.adjointAt (u.size + s.xs.length - 1)) ::
              if k = 0 then [] else
                [.add (u.size + k - 1) (swept.adjointAt (u.size + s.xs.length - 1))] :=
  ⟨_, s.gradient_alone x, by simp, s.readOut_inPlace_eq_manualChain x, s.manualChain_links_swept x⟩

def squareThenSine : Splice where
  pre := [.input]
  xs := [0, 0]
  body := [.mul 0 1]
  rest := [.sin 1]
  pre_scoped p c found a mem := by
    cases p with
    | zero =>
      simp only [List.getElem?_cons_zero, Option.some.injEq] at found
      subst found
      simp [Call.operands] at mem
    | succ p => simp at found
  xs_within a mem := by simp_all
  body_reads := by simp [ReadsBefore, Call.operands]
  body_computes c mem := by simp_all [Call.isInput]
  body_nonempty := by simp
  rest_reads := by simp [ReadsBefore, Call.operands]

theorem manualChain_stands_in_for_square :
    ∃ ps, gradient squareThenSine.alone squareThenSine.out (squareThenSine.args fun _ => 2) =
        .ok ps ∧ ps.length = squareThenSine.xs.length ∧
      (∃ result, readOut (squareThenSine.recordWith (fun _ => 2)
          (squareThenSine.inPlace fun _ => 2)) = .ok result ∧
        readOut (squareThenSine.recordWith (fun _ => 2) fun hs =>
          Record.manualChain hs ps
            (value squareThenSine.alone squareThenSine.out (squareThenSine.args fun _ => 2))) =
          .ok result) ∧
      let swept := (run (do
        let y ← squareThenSine.recordWith (fun _ => 2) fun hs => Record.manualChain hs ps
          (value squareThenSine.alone squareThenSine.out (squareThenSine.args fun _ => 2))
        Tape.interpret (some y.index)) Tape.empty).2
      ∃ vs u, run (record (fun _ => 2) squareThenSine.pre) Tape.empty = (.ok vs, u) ∧
        ∀ k < squareThenSine.xs.length, ∃ e, swept.entries[u.size + k]? = some e ∧
          e.kind = .manual ∧
          e.value = value squareThenSine.alone squareThenSine.out (squareThenSine.args fun _ => 2) ∧
          e.adjoint = swept.adjointAt (u.size + squareThenSine.xs.length - 1) ∧
          e.pulls swept.size swept.valueAt =
            .add (vs.getD (squareThenSine.xs.getD k 0) ⟨0, 0⟩).index.toNat
                (ps.getD k 0 * swept.adjointAt (u.size + squareThenSine.xs.length - 1)) ::
              if k = 0 then [] else
                [.add (u.size + k - 1) (swept.adjointAt (u.size + squareThenSine.xs.length - 1))] :=
  manualChain_stands_in_for_computation squareThenSine fun _ => 2

end Splice

end StraightLine

end AdjointDiff
