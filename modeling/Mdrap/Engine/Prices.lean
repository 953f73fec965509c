import Mdrap.Engine.Stages

/-!
# The stages of a step that look at prices

The price corridor compares a price with the window of prices before it, over running sums that are seeded from the window, and
starts a new window after enough outliers that agree. The last stage keeps the quotes of the feeds, and compares the recent prices
of all feeds of an instrument.
-/

namespace Mdrap

open Lib

variable {V : Type}

/-! ## The price corridor -/

/-- An integer as a number. -/
def ofNat (P : Py V) (n : Nat) : Except PyError V := P.num (.int n)

/-- The mean of a window. -/
def meanOf (P : Py V) (prices : List V) (n : Nat) : Except PyError V := do P.div (← P.sum prices) (← ofNat P n)

/-- The sum of the squares of the deviations. -/
def squaresOf (P : Py V) (prices : List V) (mean : V) : Except PyError V := do
  P.sum (← prices.mapM (fun p => do P.square (← P.sub p mean)))

/-- Beyond six standard deviations, with a floor for the deviation; and the deviation that was used. -/
def sigmaTest (P : Py V) (price mean std : V) : Except PyError (Bool × Option V) := do
  let floor ← P.mul mean (P.dec 1 (-4))
  let eff := P.max std floor
  if P.lt (P.dec 0 0) eff then
    let d ← P.sub price mean
    return (P.lt (← P.mul (P.dec 6 0) eff) (P.abs d), some eff)
  else return (false, some eff)

/-- More than a tenth away from the mean. -/
def warmupTest (P : Py V) (price mean : V) : Except PyError (Bool × Option V) :=
  if P.lt (P.dec 0 0) mean then do
    let d ← P.sub price mean
    return (P.lt (P.dec 1 (-1)) (← P.div (P.abs d) mean), none)
  else .ok (false, none)

/-- Whether a price is an outlier, by the running sums or by the window itself. -/
def priceTest (P : Py V) (prices : List V) (stats : Option (V × V × Nat)) (price : V) : Except PyError (Bool × Option V) :=
  let n := prices.length
  match stats with
  | some (mean, m2, _) =>
    if 20 ≤ n then do
      let variance ← P.div m2 (← ofNat P n)
      let std ← if P.lt (P.dec 0 0) variance then P.sqrt variance else .ok (P.dec 0 0)
      sigmaTest P price mean std
    else if 3 ≤ n then warmupTest P price mean
    else .ok (false, none)
  | none =>
    if 20 ≤ n then do
      let mean ← meanOf P prices n
      let std ← P.sqrt (← P.div (← squaresOf P prices mean) (← ofNat P n))
      sigmaTest P price mean std
    else if 3 ≤ n then do warmupTest P price (← meanOf P prices n)
    else .ok (false, none)

/-- The running sums of a slot, seeded from its window where there are none. -/
def seedStats (P : Py V) (slot : String) (prices : List V) : StepM V (Option (V × V × Nat)) := do
  match ← look (fun s => s.priceStats.get? slot) with
  | some stats => return some stats
  | none =>
    if 3 ≤ prices.length then do
      let mean ← Proc.lift (meanOf P prices prices.length)
      let m2 ← Proc.lift (squaresOf P prices mean)
      update (fun s => { s with priceStats := s.priceStats.set slot (mean, m2, 0) })
      return some (mean, m2, 0)
    else return none

/-- An outlier is counted. Enough of them that agree start a new window. -/
def priceOutlier (P : Py V) (slot : String) (price : V) (effStd : Option V) : StepM V Unit := do
  let (cnt, last) ← look (fun s => (s.priceAnom.get? slot).getD (0, P.dec 0 0))
  let twentieth ← Proc.lift (P.mul (P.dec 5 (-2)) (P.abs price))
  let eff := match effStd with
    | some e => if P.lt (P.dec 0 0) e then e else twentieth
    | none => twentieth
  let band ← Proc.lift (P.mul (P.dec 6 0) eff)
  let d ← Proc.lift (if 0 < cnt then (P.sub price last).map some else .ok none)
  let cnt := if d.any (fun d => P.le (P.abs d) (P.max band twentieth)) then cnt + 1 else 1
  if DEFAULT_PRICE_RESEED_AFTER ≤ cnt then
    update (fun s => { s with
      priceWindows := s.priceWindows.set slot [price]
      priceStats := s.priceStats.set slot (price, P.dec 0 0, 0)
      priceAnom := s.priceAnom.set slot (0, P.dec 0 0) })
  else update (fun s => { s with priceAnom := s.priceAnom.set slot (cnt, price) })

/-- The sums when a price takes the place of the oldest one of a full window. They are taken anew every two hundred times. -/
def slideStats (P : Py V) (prices : List V) (stats : V × V × Nat) (price old : V) : Except PyError (V × V × Nat) := do
  let (mean, m2, cnt) := stats
  let d ← P.sub price old
  let nm ← P.add mean (← P.div d (← ofNat P DEFAULT_PRICE_WINDOW))
  let m2 ← P.add m2 (← P.mul d (← P.add (← P.sub price nm) (← P.sub old mean)))
  let m2 := if P.lt m2 (P.dec 0 0) then P.dec 0 0 else m2
  if 200 ≤ cnt + 1 then do
    let nm ← meanOf P prices DEFAULT_PRICE_WINDOW
    return (nm, ← squaresOf P prices nm, 0)
  else return (nm, m2, cnt + 1)

/-- The sums when a window that is not full gets one price more. -/
def growStats (P : Py V) (n : Nat) (stats : V × V × Nat) (price : V) : Except PyError (V × V × Nat) := do
  let (mean, m2, cnt) := stats
  let d ← P.sub price mean
  let nm ← P.add mean (← P.div d (← ofNat P n))
  let m2 ← P.add m2 (← P.mul d (← P.sub price nm))
  return (nm, if P.lt m2 (P.dec 0 0) then P.dec 0 0 else m2, cnt + 1)

/-- A price within the corridor goes into the window. -/
def priceFold (P : Py V) (slot : String) (prices : List V) (stats : Option (V × V × Nat)) (price : V) : StepM V Unit := do
  update (fun s => { s with priceAnom := s.priceAnom.set slot (0, P.dec 0 0) })
  match prices with
  | old :: rest =>
    if DEFAULT_PRICE_WINDOW ≤ prices.length then do
      update (fun s => { s with priceWindows := s.priceWindows.set slot (rest ++ [price]) })
      match stats with
      | some stats => setStats (slideStats P (rest ++ [price]) stats price old)
      | none => pure ()
    else grow
  | [] => grow
where
  /-- Write the sums. -/
  setStats (x : Except PyError (V × V × Nat)) : StepM V Unit := do
    let stats ← Proc.lift x
    update (fun s => { s with priceStats := s.priceStats.set slot stats })
  /-- One price more in a window that is not full. -/
  grow : StepM V Unit := do
    update (fun s => { s with priceWindows := s.priceWindows.set slot (prices ++ [price]) })
    match stats with
    | some stats => setStats (growStats P (prices.length + 1) stats price)
    | none =>
      if 3 ≤ prices.length + 1 then
        setStats (do
          let nm ← meanOf P (prices ++ [price]) (prices.length + 1)
          return (nm, ← squaresOf P (prices ++ [price]) nm, 0))
      else pure ()

/-- `_stage_price_corridor`. -/
def stagePriceCorridor (P : Py V) (slot : String) (price : Option V) (status : QualityStatus) (reasons : List Reason) :
    StepM V (QualityStatus × List Reason) :=
  match price with
  | none => return (status, reasons)
  | some price =>
    if status = .invalid then return (status, reasons)
    else do
      recordPriceWindow slot
      update (fun s => { s with priceWindows := s.priceWindows.set slot ((s.priceWindows.get? slot).getD []) })
      let prices ← look (fun s => (s.priceWindows.get? slot).getD [])
      let stats ← seedStats P slot prices
      let (anomaly, effStd) ← Proc.lift (priceTest P prices stats price)
      if anomaly then do
        priceOutlier P slot price effStd
        return (status.merge .suspicious, reasons ++ [.priceAnomaly])
      else do
        priceFold P slot prices stats price
        return (status, reasons)

/-! ## Quotes, and the prices of other feeds -/

/-- Change an entry of a nested dictionary. -/
def setNested {α : Type} (d : Dict String (Dict String α)) (outer inner : String) (v : α) : Dict String (Dict String α) :=
  d.set outer (((d.get? outer).getD .empty).set inner v)

/-- The quote of a source. -/
def quoteOf (s : EngineState V) (instrument source : String) : Quote V :=
  (((s.bboState.get? instrument).getD .empty).get? source).getD ⟨none, none⟩

/-- The quotes of an event are kept. -/
def keepQuotes (P : Py V) (payload : Json) (instrument source : String) : StepM V Unit :=
  if Json.isNull (payload.get "bid") ∧ Json.isNull (payload.get "ask") then pure ()
  else do
    recordBbo instrument source
    update (fun s => { s with bboState := setNested s.bboState instrument source (quoteOf s instrument source) })
    side "bid" (fun q x => { q with bid := some x })
    side "ask" (fun q x => { q with ask := some x })
where
  /-- One side of the quote. -/
  side (f : String) (put : Quote V → V → Quote V) : StepM V Unit :=
    if Json.isNull (payload.get f) then pure ()
    else do
      let x ← Proc.lift (P.float (payload.get f))
      update (fun s => { s with bboState := setNested s.bboState instrument source (put (quoteOf s instrument source) x) })

/-- The price of a feed is recent. -/
def isRecent (P : Py V) (exchTs ts : V) : Except PyError Bool := do return P.le (P.abs (← P.sub exchTs ts)) (P.dec 25 (-2))

/-- The sum and the number of the recent prices. -/
def sumRecent (P : Py V) (exchTs : V) : List (V × V) → V → Nat → Except PyError (V × Nat)
  | [], sum, n => .ok (sum, n)
  | (p, ts) :: rest, sum, n => do
    if ← isRecent P exchTs ts then sumRecent P exchTs rest (← P.add sum p) (n + 1) else sumRecent P exchTs rest sum n

/-- Some recent price is away from the mean. -/
def anyAway (P : Py V) (exchTs mean : V) : List (V × V) → Except PyError Bool
  | [] => .ok false
  | (p, ts) :: rest => do
    if ← isRecent P exchTs ts then
      if P.lt (P.dec 5 (-3)) (← P.div (P.abs (← P.sub p mean)) mean) then return true else anyAway P exchTs mean rest
    else anyAway P exchTs mean rest

/-- The recent prices of the feeds of an instrument do not agree. -/
def disagree (P : Py V) (exchTs : V) (recent : List (V × V)) : Except PyError Bool :=
  if 2 ≤ recent.length then do
    let (sum, n) ← sumRecent P exchTs recent (P.dec 0 0) 0
    if 2 ≤ n then do
      let mean ← P.div sum (← ofNat P n)
      if P.lt (P.dec 0 0) mean then anyAway P exchTs mean recent else return false
    else return false
  else .ok false

/-- `_stage_bbo_and_reconciliation`. -/
def stageBboAndReconciliation (P : Py V) (raw : RawEvent) (f : Fields V) (price : Option V) (status : QualityStatus)
    (reasons : List Reason) : StepM V Finding := do
  let source := raw.sourceText P
  keepQuotes P raw.payload f.instrument source
  match price with
  | none => return ⟨status, reasons, false⟩
  | some price =>
    if status = .invalid then return ⟨status, reasons, false⟩
    else do
      recordReconciliation f.instrument source
      update (fun s => { s with reconciliationState := setNested s.reconciliationState f.instrument source (price, f.exchTs) })
      let recent ← look (fun s => ((s.reconciliationState.get? f.instrument).getD .empty).values)
      if ← Proc.lift (disagree P f.exchTs recent) then
        return ⟨status.merge .suspicious, reasons ++ [.crossFeedDisagreement], true⟩
      else return ⟨status, reasons, false⟩

end Mdrap
