import AdjointDiff.Proofs.Real.Dual

set_option autoImplicit false

namespace AdjointDiff

open Recorder

namespace StraightLine

variable {t : Tape ℝ} {r n : Nat}

theorem yields_manual (clean : t.Clean) (count : t.inputRank t.size = n) {x : Var ℝ}
    {d : ℝ × ℝ} (tracks : Tracks t r x d) (p value : ℝ) :
    Yields r n (Record.manual x p value none) t (value, p * d.2) := by
  obtain ⟨valid, _, rate⟩ := tracks
  have none_below : ∀ i ∈ (none : Option Nat), i < t.size := by simp
  have yields := yields_entry (r := r) clean count (show Kind.manual ≠ .input by decide)
    valid.below none_below value p (Entry.complete_unary rfl _ _ _ _)
  rw [Record.manual, valid.cast]
  simpa [Entry.partials, rate] using yields

theorem yields_manual_chained (clean : t.Clean) (count : t.inputRank t.size = n) {x out : Var ℝ}
    {d e : ℝ × ℝ} (tracks_x : Tracks t r x d) (tracks_out : Tracks t r out e) (p value : ℝ) :
    Yields r n (Record.manual x p value (some out)) t (value, p * d.2 + e.2) := by
  obtain ⟨valid_x, _, rate_x⟩ := tracks_x
  obtain ⟨valid_out, _, rate_out⟩ := tracks_out
  have yields := yields_entry (r := r) clean count (show Kind.manual ≠ .input by decide)
    valid_x.below valid_out.below value p (Entry.complete_binary _ _ _ _ _ _)
  have chained : (some out).map (fun v => Operand.int v.index) = (some out.index.toNat).map .ofNat :=
    valid_out.cast
  rw [Record.manual, valid_x.cast, chained]
  simpa [Entry.partials, rate_x, rate_out] using yields

theorem yields_chainRest (clean : t.Clean) (count : t.inputRank t.size = n) {out : Var ℝ}
    {e : ℝ × ℝ} (tracks : Tracks t r out e) (last : out.index.toNat + 1 = t.size)
    {xs : List (Var ℝ)} {ds : List (ℝ × ℝ)} (tracked : List.Forall₂ (Tracks t r) xs ds)
    (ps : List ℝ) (same : xs.length = ps.length) :
    Yields r n (Record.chainRest out (xs.zip ps)) t
      (e.1, e.2 + (List.zipWith (· * ·) ps (ds.map Prod.snd)).sum) := by
  induction xs generalizing t out e ds ps with
  | nil =>
    cases tracked
    simpa [Record.chainRest] using yields_pure clean count tracks last
  | cons x xs ih =>
    obtain ⟨d, ds, rfl⟩ : ∃ d ds', ds = d :: ds' := List.exists_cons_of_length_eq_add_one
      (by simpa using tracked.length_eq.symm)
    obtain ⟨head, tail⟩ := List.forall₂_cons.1 tracked
    obtain ⟨p, ps, rfl⟩ : ∃ p ps', ps = p :: ps' := List.exists_cons_of_length_eq_add_one same.symm
    rw [List.zip_cons_cons]
    simp only [Record.chainRest]
    -- each link carries the value of the one before it and adds its own term
    refine (yields_manual_chained clean count head tracks p out.value).bind
      fun next u clean' count' ext tracks_next last_next => ?_
    have later := ih clean' count' tracks_next last_next
      (tail.imp fun _ _ tracks => tracks.mono ext clean.topological) ps (by simpa using same)
    refine later.of_eq ?_
    simp only [List.zipWith_cons_cons, List.map_cons, List.sum_cons, tracks.2.1, Prod.mk.injEq,
      true_and]
    ring

theorem yields_manualChain (clean : t.Clean) (count : t.inputRank t.size = n)
    {xs : List (Var ℝ)} {ds : List (ℝ × ℝ)} (tracked : List.Forall₂ (Tracks t r) xs ds)
    (ps : List ℝ) (same : xs.length = ps.length) (nonempty : xs ≠ []) (value : ℝ) :
    Yields r n (Record.manualChain xs ps value) t
      (value, (List.zipWith (· * ·) ps (ds.map Prod.snd)).sum) := by
  obtain ⟨x, xs, rfl⟩ := List.exists_cons_of_ne_nil nonempty
  obtain ⟨d, ds, rfl⟩ : ∃ d ds', ds = d :: ds' := List.exists_cons_of_length_eq_add_one
    (by simpa using tracked.length_eq.symm)
  obtain ⟨head, tail⟩ := List.forall₂_cons.1 tracked
  obtain ⟨p, ps, rfl⟩ : ∃ p ps', ps = p :: ps' := List.exists_cons_of_length_eq_add_one same.symm
  have lengths : xs.length = ps.length := by simpa using same
  simp only [Record.manualChain, if_pos lengths]
  refine (yields_manual clean count head p value).bind
    fun first u clean' count' ext tracks_first last_first => ?_
  have rest := yields_chainRest clean' count' tracks_first last_first
    (tail.imp fun _ _ tracks => tracks.mono ext clean.topological) ps lengths
  simpa using rest

end StraightLine

end AdjointDiff
