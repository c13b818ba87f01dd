set_option autoImplicit false

namespace AdjointDiff.Special

def horner (x : Float) : List Float → Float
  | [] => 0.0
  | c :: cs => cs.foldl (fun acc a => acc * x + a) c

def hornerMonic (x : Float) (cs : List Float) : Float :=
  match cs with
  | [] => 1.0
  | c :: rest => rest.foldl (fun acc a => acc * x + a) (x + c)

def erfcNearP : List Float :=
  [2.46196981473530512524E-10, 5.64189564831068821977E-1, 7.46321056442269912687E0,
   4.86371970985681366614E1, 1.96520832956077098242E2, 5.26445194995477358631E2,
   9.34528527171957607540E2, 1.02755188689515710272E3, 5.57535335369399327526E2]

def erfcNearQ : List Float :=
  [1.32281951154744992508E1, 8.67072140885989742329E1, 3.54937778887819891062E2,
   9.75708501743205489753E2, 1.82390916687909736289E3, 2.24633760818710981792E3,
   1.65666309194161350182E3, 5.57535340817727675546E2]

def erfcFarR : List Float :=
  [5.64189583547755073984E-1, 1.27536670759978104416E0, 5.01905042251180477414E0,
   6.16021097993053585195E0, 7.40974269950448939160E0, 2.97886665372100240670E0]

def erfcFarS : List Float :=
  [2.26052863220117276590E0, 9.39603524938001434673E0, 1.20489539808096656605E1,
   1.70814450747565897222E1, 9.60896809063285878198E0, 3.36907645100081516050E0]

def erfT : List Float :=
  [9.60497373987051638749E0, 9.00260197203842689217E1, 2.23200534594684319226E3,
   7.00332514112805075473E3, 5.55923013010394962768E4]

def erfU : List Float :=
  [3.35617141647503099647E1, 5.21357949780152679795E2, 4.59432382970980127987E3,
   2.26290000613890934246E4, 4.92673942608635921086E4]

def maxLog : Float := 7.09782712893383996843E2

def sqrtHalf : Float := 0.70710678118654752440

def erfSmall (x : Float) : Float :=
  let z := x * x
  x * horner z erfT / hornerMonic z erfU

def erfcLarge (a : Float) : Float :=
  let x := a.abs
  let z := -a * a
  let tail : Float := if a < 0.0 then 2.0 else 0.0
  if z < -maxLog then tail else
  let z := Float.exp z
  let (p, q) :=
    if x < 8.0 then (horner x erfcNearP, hornerMonic x erfcNearQ)
    else (horner x erfcFarR, hornerMonic x erfcFarS)
  let y := z * p / q
  let y := if a < 0.0 then 2.0 - y else y
  if y != 0.0 then y else tail

def erfNonneg (x : Float) : Float :=
  if x > 1.0 then 1.0 - erfcLarge x else erfSmall x

def erf (x : Float) : Float :=
  if x.isNaN then x
  else if x < 0.0 then -(erfNonneg (-x))
  else erfNonneg x

def erfc (a : Float) : Float :=
  if a.isNaN then a
  else if a.abs < 1.0 then 1.0 - erf a
  else erfcLarge a

def normalCdf (a : Float) : Float :=
  if a.isNaN then a else
  let x := a * sqrtHalf
  let z := x.abs
  if z < sqrtHalf then 0.5 + 0.5 * erf x
  else
    let y := 0.5 * erfc z
    if x > 0.0 then 1.0 - y else y

end AdjointDiff.Special
