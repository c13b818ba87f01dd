import AdjointDiff.Proofs.Pricing.BlackMethods
import AdjointDiff.Formula.Sabr.Price

set_option autoImplicit false

namespace AdjointDiff

namespace Arith

variable {α : Type} [Scalar α] {ar : Arith}

theorem eq_div_of_div_eq_ok {a b c : α} (divided : ar.div a b = .ok c) : c = a / b := by
  cases ar <;> simp only [Arith.div] at divided
  · split at divided
    · cases divided
    · exact (Except.ok.inj divided).symm
  · exact (Except.ok.inj divided).symm

theorem eq_pow_of_powNat_eq_ok {a c : α} {n : Nat} (raised : ar.powNat a n = .ok c) :
    c = Scalar.pow a (OfScientific.ofScientific n false 0) := by
  cases ar <;> simp only [Arith.powNat] at raised
  · split at raised
    · cases raised
    · exact (Except.ok.inj raised).symm
  · exact (Except.ok.inj raised).symm

theorem div_eq_ok_of_div_eq_ok {a b c : α} (divided : ar.div a b = .ok c) (a' : α) :
    ar.div a' b = .ok (a' / b) := by
  cases ar <;> simp only [Arith.div] at divided ⊢
  split at divided
  · cases divided
  · rename_i nonzero
    simp [nonzero]

end Arith

namespace Black

variable {α : Type} [Scalar α] {ar : Arith} {isCall : Bool} {q : BlackQuote α}

theorem div_of_sweep_eq_ok {s : Sweep α} (swept : sweep ar isCall q = .ok s) :
    ar.div q.forward q.strike = .ok (q.forward / q.strike) := by
  cases quotient : ar.div q.forward q.strike with
  | error f => simp [sweep, quotient, bind, Except.bind] at swept
  | ok m => rw [Arith.eq_div_of_div_eq_ok quotient]

theorem fst_priceAdjoint (ar : Arith) (isCall : Bool) (q : BlackQuote α) :
    Prod.fst <$> priceAdjoint ar isCall q =
      (do let v ← price ar isCall q; let _ ← ar.div 1.0 q.forward; pure v) := by
  simp only [priceAdjoint, price]
  cases swept : sweep ar isCall q with
  | error f => rfl
  | ok s =>
    have quotient := div_of_sweep_eq_ok swept
    simp only [bind, Except.bind, quotient, Arith.div_eq_ok_of_div_eq_ok quotient]
    cases ar.div 1.0 q.forward <;> rfl

end Black

namespace Sabr

variable {α : Type} [Scalar α]

def backwardChecks (ar : Arith) (q : SabrQuote α) (s : Sweep α) : Except Fault Unit := do
  let _ ← ar.powNat s.beta1 3
  let _ ← ar.div (-q.nu) (q.alpha * q.alpha)
  if s.small then pure () else do
    let _ ← ar.div 1.0 (1.0 - q.rho)
    pure ()

variable {ar : Arith} {q : SabrQuote α}

theorem div_of_sweep_eq_ok {s : Sweep α} (swept : sweep ar q = .ok s) :
    ar.div q.nu q.alpha = .ok (q.nu / q.alpha) := by
  cases quotient : ar.div q.forward q.strike with
  | error f => simp [sweep, quotient, bind, Except.bind] at swept
  | ok m =>
  cases ratio : ar.div q.nu q.alpha with
  | error f => simp [sweep, quotient, ratio, bind, Except.bind] at swept
  | ok r => rw [Arith.eq_div_of_div_eq_ok ratio]

theorem fst_volatilityAdjoint (ar : Arith) (q : SabrQuote α) :
    Prod.fst <$> volatilityAdjoint ar q =
      (do let s ← sweep ar q; backwardChecks ar q s; pure s.value) := by
  simp only [volatilityAdjoint, backwardChecks]
  cases swept : sweep ar q with
  | error f => rfl
  | ok s =>
    simp only [bind, Except.bind, div_of_sweep_eq_ok swept]
    -- past the forward sweep's checks, each further checked step refuses or passes the value on
    cases ar.powNat s.beta1 3 with
    | error f => rfl
    | ok cube =>
      cases ar.div (-q.nu) (q.alpha * q.alpha) with
      | error f => rfl
      | ok ratio =>
        cases s.small
        · cases ar.div 1.0 (1.0 - q.rho) <;> rfl
        · rfl

theorem backwardChecks_ieee (q : SabrQuote α) (s : Sweep α) : backwardChecks .ieee q s = .ok () := by
  cases small : s.small <;> simp [backwardChecks, Arith.powNat, Arith.div, small] <;> rfl

theorem fst_priceAdjoint (ar : Arith) (isCall : Bool) (o : SabrOption α) :
    Prod.fst <$> priceAdjoint ar isCall o =
      (do
        let s ← sweep ar o.quote
        backwardChecks ar o.quote s
        Black.price ar isCall (o.black s.value)) := by
  -- the Black layer is swept by the optimized sweep, whose value is the price
  have layered : Prod.fst <$> priceAdjoint ar isCall o =
      (Prod.fst <$> volatilityAdjoint ar o.quote) >>= fun v => Black.price ar isCall (o.black v) := by
    simp only [priceAdjoint, Black.price_eq_map_priceAdjointOptimized]
    cases volatilityAdjoint ar o.quote with
    | error f => rfl
    | ok p =>
      simp only [bind, Except.bind, Functor.map, Except.map]
      cases Black.priceAdjointOptimized ar isCall (o.black p.1) <;> rfl
  rw [layered, fst_volatilityAdjoint]
  simp only [bind_assoc, pure_bind]

end Sabr

/-- Each hand-written adjoint answers the value of its plain function, and where that refuses it
refuses with the same fault. Past the plain function it takes only its own checked steps: none
for the optimized Black sweep, `1/F` for the full one, and for the SABR volatility and price the
checks of the volatility's backward sweep. -/
theorem adjoints_answer_plain_after_checks {α : Type} [Scalar α] (ar : Arith) (isCall : Bool)
    (q : BlackQuote α) (p : SabrQuote α) (o : SabrOption α) :
    Prod.fst <$> Black.priceAdjointOptimized ar isCall q = Black.price ar isCall q ∧
    Prod.fst <$> Black.priceAdjoint ar isCall q =
      (do let v ← Black.price ar isCall q; let _ ← ar.div 1.0 q.forward; pure v) ∧
    Prod.fst <$> Sabr.volatilityAdjoint ar p =
      (do let s ← Sabr.sweep ar p; Sabr.backwardChecks ar p s; pure s.value) ∧
    Prod.fst <$> Sabr.priceAdjoint ar isCall o =
      (do
        let s ← Sabr.sweep ar o.quote
        Sabr.backwardChecks ar o.quote s
        Black.price ar isCall (o.black s.value)) :=
  ⟨(Black.price_eq_map_priceAdjointOptimized ar isCall q).symm, Black.fst_priceAdjoint ar isCall q,
    Sabr.fst_volatilityAdjoint ar p, Sabr.fst_priceAdjoint ar isCall o⟩

theorem Black.priceAdjoint_refuses_zero_forward :
    let q : BlackQuote ℝ := ⟨0, 1 / 5, 19 / 20, 1 / 20, 1⟩
    (∃ v, Black.price .checked true q = .ok v) ∧
      Black.priceAdjoint .checked true q = .error .zeroDivision := by
  intro q
  constructor
  · exact ⟨_, by simp [Black.price, Black.sweep, Arith.div, q, bind, Except.bind]; rfl⟩
  · simp [Black.priceAdjoint, Black.sweep, Arith.div, q, bind, Except.bind, pure, Except.pure]

end AdjointDiff
