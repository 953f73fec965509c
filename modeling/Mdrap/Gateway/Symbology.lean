import Mathlib.Data.Char
import Mathlib.Data.List.Lex
import Mdrap.Lib.CaseMapping
import Mdrap.Storage.CrashJournal

/-!
# Symbology

`resolve_symbol` makes the id, the venue and the currency of an instrument from what a user or a feed calls it. It looks a name up in a
directory, then an identifier of twelve characters, then an alias; then it goes by the suffix of an exchange, takes four digits to be a
code of Tokyo, and anything else to be a ticker of the default venue. The tables of Unicode are left open.
-/

namespace Mdrap

open Lib

/-- `SymbolInfo`. -/
structure SymbolInfo where
  canonicalId : PyText
  ticker : PyText
  venueMic : PyText
  currency : PyText
  country : PyText
  name : PyText
  ric : PyText
  bloomberg : PyText
  isin : PyText
  figi : PyText := []
  deriving DecidableEq

/-- An entry of literals. -/
def SymbolInfo.ofTexts (canonicalId ticker venueMic currency country name ric bloomberg isin : String) : SymbolInfo where
  canonicalId := pyText canonicalId
  ticker := pyText ticker
  venueMic := pyText venueMic
  currency := pyText currency
  country := pyText country
  name := pyText name
  ric := pyText ric
  bloomberg := pyText bloomberg
  isin := pyText isin

/-! ## Tables -/

/-- `GLOBAL_SECURITY_DIRECTORY`, by literals. -/
def globalSecurities : List (String × SymbolInfo) := [
  ("RELIANCE", .ofTexts "RELIANCE.NS" "RELIANCE" "XNSE" "INR" "IN" "Reliance Industries Ltd" "RELI.NS" "RELIANCE:IN" "INE002A01018"),
  ("TCS", .ofTexts "TCS.NS" "TCS" "XNSE" "INR" "IN" "Tata Consultancy Services Ltd" "TCS.NS" "TCS:IN" "INE467B01029"),
  ("HDFCBANK", .ofTexts "HDFCBANK.NS" "HDFCBANK" "XNSE" "INR" "IN" "HDFC Bank Ltd" "HDBK.NS" "HDFCB:IN" "INE040A01034"),
  ("INFY", .ofTexts "INFY.NS" "INFY" "XNSE" "INR" "IN" "Infosys Ltd" "INFY.NS" "INFO:IN" "INE009A01021"),
  ("ICICIBANK", .ofTexts "ICICIBANK.NS" "ICICIBANK" "XNSE" "INR" "IN" "ICICI Bank Ltd" "ICBK.NS" "ICICIBC:IN" "INE090A01021"),
  ("TATAMOTORS", .ofTexts "TATAMOTORS.NS" "TATAMOTORS" "XNSE" "INR" "IN" "Tata Motors Ltd" "TAMO.NS" "TTMT:IN" "INE155A01022"),
  ("NIFTY", .ofTexts "^NSEI" "NIFTY" "XNSE" "INR" "IN" "Nifty 50 Index" ".NSEI" "NIFTY:IND" "INX000000001"),
  ("BANKNIFTY", .ofTexts "^NSEBANK" "BANKNIFTY" "XNSE" "INR" "IN" "Nifty Bank Index" ".NSEBANK" "NSEBANK:IND" "INX000000002"),
  ("SAP", .ofTexts "SAP.DE" "SAP" "XETR" "EUR" "DE" "SAP SE" "SAPG.DE" "SAP:GY" "DE0007164600"),
  ("SIE", .ofTexts "SIE.DE" "SIE" "XETR" "EUR" "DE" "Siemens AG" "SIEGn.DE" "SIE:GY" "DE0007236101"),
  ("BMW", .ofTexts "BMW.DE" "BMW" "XETR" "EUR" "DE" "Bayerische Motoren Werke AG (BMW)" "BMWG.DE" "BMW:GY" "DE0005190003"),
  ("VOW3", .ofTexts "VOW3.DE" "VOW3" "XETR" "EUR" "DE" "Volkswagen AG Vorzug" "VOWG_p.DE" "VOW3:GY" "DE0007664039"),
  ("ALV", .ofTexts "ALV.DE" "ALV" "XETR" "EUR" "DE" "Allianz SE" "ALVG.DE" "ALV:GY" "DE0008404005"),
  ("MBG", .ofTexts "MBG.DE" "MBG" "XETR" "EUR" "DE" "Mercedes-Benz Group AG" "MBGn.DE" "MBG:GY" "DE0007100000"),
  ("DAX", .ofTexts "^GDAXI" "DAX" "XETR" "EUR" "DE" "DAX 40 Index" ".GDAXI" "DAX:IND" "DE0008469008"),
  ("7203", .ofTexts "7203.T" "7203" "XTKS" "JPY" "JP" "Toyota Motor Corp" "7203.T" "7203:JP" "JP3633400001"),
  ("6758", .ofTexts "6758.T" "6758" "XTKS" "JPY" "JP" "Sony Group Corp" "6758.T" "6758:JP" "JP3435000009"),
  ("9984", .ofTexts "9984.T" "9984" "XTKS" "JPY" "JP" "SoftBank Group Corp" "9984.T" "9984:JP" "JP3436100006"),
  ("8306", .ofTexts "8306.T" "8306" "XTKS" "JPY" "JP" "Mitsubishi UFJ Financial Group Inc" "8306.T" "8306:JP" "JP3902900004"),
  ("6861", .ofTexts "6861.T" "6861" "XTKS" "JPY" "JP" "Keyence Corp" "6861.T" "6861:JP" "JP3236200006"),
  ("N225", .ofTexts "^N225" "N225" "XTKS" "JPY" "JP" "Nikkei 225 Average" ".N225" "NKY:IND" "XC0009692440"),
  ("AAPL", .ofTexts "AAPL" "AAPL" "XNAS" "USD" "US" "Apple Inc" "AAPL.O" "AAPL:US" "US0378331005"),
  ("NVDA", .ofTexts "NVDA" "NVDA" "XNAS" "USD" "US" "NVIDIA Corporation" "NVDA.O" "NVDA:US" "US67066G1040"),
  ("MSFT", .ofTexts "MSFT" "MSFT" "XNAS" "USD" "US" "Microsoft Corporation" "MSFT.O" "MSFT:US" "US5949181045"),
  ("SPY", .ofTexts "SPY" "SPY" "XNYS" "USD" "US" "SPDR S&P 500 ETF Trust" "SPY.P" "SPY:US" "US78462F1030"),
  ("META", .ofTexts "META" "META" "XNAS" "USD" "US" "Meta Platforms Inc" "META.O" "META:US" "US30303M1027"),
  ("FB", .ofTexts "FB" "FB" "XNAS" "USD" "US" "Meta Platforms Inc (fka Facebook)" "FB.O" "FB:US" "US30303M1027"),
  ("SHEL", .ofTexts "SHEL.L" "SHEL" "XLON" "GBP" "GB" "Shell plc" "SHEL.L" "SHEL:LN" "GB00BP6MXD84"),
  ("AZN", .ofTexts "AZN.L" "AZN" "XLON" "GBP" "GB" "AstraZeneca PLC" "AZN.L" "AZN:LN" "GB0009895292"),
  ("ES", .ofTexts "ES.CME" "ES" "XCME" "USD" "US" "E-mini S&P 500 Futures" "ESc1" "ESA:INDEX" ""),
  ("CL", .ofTexts "CL.NYM" "CL" "XNYM" "USD" "US" "WTI Light Sweet Crude Oil Futures" "CLc1" "CLA:COMDTY" ""),
  ("BRENT", .ofTexts "BRENT.ICE" "BRENT" "IFEU" "USD" "GB" "Brent Crude Futures" "LCOc1" "COA:COMDTY" "")
]

/-- `GLOBAL_SECURITY_DIRECTORY`. -/
def globalSecurityDirectory : List (PyText × SymbolInfo) := globalSecurities.map (fun kv => (pyText kv.1, kv.2))

/-- `ALIASES_TO_TICKER`. -/
def aliasesToTicker : List (PyText × PyText) :=
  [("TOYOTA", "7203"), ("SONY", "6758"), ("SOFTBANK", "9984"), ("MUFG", "8306"), ("KEYENCE", "6861"), ("NIKKEI", "N225"),
   ("VOLKSWAGEN", "VOW3"), ("ALLIANZ", "ALV"), ("SIEMENS", "SIE"), ("MERCEDES", "MBG"), ("RELIANCEIND", "RELIANCE"), ("TATA",
   "TATAMOTORS"), ("HDFC", "HDFCBANK"), ("INFOSYS", "INFY"), ("ICICI", "ICICIBANK")].map (fun kv : String × String => (pyText kv.1, pyText kv.2))

/-- `HISTORICAL_TICKER_CHANGES`: the old name, the new one, and the day. -/
def historicalTickerChanges : List (PyText × PyText × PyText) :=
  [("FB", "META", "2022-06-09"), ("TWTR", "X", "2023-07-23"), ("ANTM", "ELV", "2022-06-28"), ("SQ", "BLOCK", "2021-12-01")].map
    (fun c : String × String × String => (pyText c.1, pyText c.2.1, pyText c.2.2))

/-- What follows from the suffix of an exchange. -/
structure SuffixRule where
  suffix : String
  venueMic : String
  currency : String
  country : String
  exchange : String
  bloomberg : String

/-- The suffixes, in the order they are tried. -/
def suffixRules : List SuffixRule := [
  ⟨".NS", "XNSE", "INR", "IN", "NSE India", "IN"⟩,
  ⟨".BO", "XBOM", "INR", "IN", "BSE India", "IN"⟩,
  ⟨".DE", "XETR", "EUR", "DE", "Deutsche Börse Xetra", "GY"⟩,
  ⟨".T", "XTKS", "JPY", "JP", "Tokyo Stock Exchange", "JP"⟩,
  ⟨".L", "XLON", "GBP", "GB", "London Stock Exchange", "LN"⟩,
  ⟨".HK", "XHKG", "HKD", "HK", "Hong Kong Exchange", "HK"⟩,
  ⟨".SI", "XSES", "SGD", "SG", "Singapore Exchange", "SP"⟩,
  ⟨".KS", "XKRX", "KRW", "KR", "Korea Exchange", "KS"⟩,
  ⟨".TW", "XTWS", "TWD", "TW", "Taiwan Stock Exchange", "TT"⟩,
  ⟨".PA", "XPAR", "EUR", "FR", "Euronext Paris", "FP"⟩
]

/-! ## Resolution -/

/-- An entry of the directory. -/
def directoryMatch (raw : PyText) : Option SymbolInfo := globalSecurityDirectory.lookup raw

/-- The first entry with a global identifier of twelve characters. -/
def identifierMatch (raw : PyText) : Option SymbolInfo :=
  if raw.length = 12 then
    (globalSecurityDirectory.map (·.2)).find? (fun info => (info.figi ≠ [] ∧ info.figi = raw) ∨ (info.isin ≠ [] ∧ info.isin = raw))
  else none

/-- The entry of an alias. -/
def aliasMatch (raw : PyText) : Option SymbolInfo := (aliasesToTicker.lookup raw).bind directoryMatch

/-- What a rule makes of a name that ends in its suffix and has something before it. -/
def SuffixRule.apply (rule : SuffixRule) (raw : PyText) : Option SymbolInfo :=
  let suffix := pyText rule.suffix
  let base := raw.take (raw.length - suffix.length)
  if suffix.length < raw.length ∧ raw.drop (raw.length - suffix.length) = suffix then
    some {
      canonicalId := raw
      ticker := base
      venueMic := pyText rule.venueMic
      currency := pyText rule.currency
      country := pyText rule.country
      name := base ++ pyText (" (" ++ rule.exchange ++ ")")
      ric := base ++ suffix
      bloomberg := base ++ pyText (":" ++ rule.bloomberg)
      isin := [] }
  else none

/-- A name with the suffix of an exchange. -/
def suffixMatch (raw : PyText) : Option SymbolInfo := suffixRules.findSome? (·.apply raw)

/-- A code of Tokyo. -/
def tokyoCode (raw : PyText) : SymbolInfo where
  canonicalId := raw ++ pyText ".T"
  ticker := raw
  venueMic := pyText "XTKS"
  currency := pyText "JPY"
  country := pyText "JP"
  name := pyText "TSE Listed #" ++ raw
  ric := raw ++ pyText ".T"
  bloomberg := raw ++ pyText ":JP"
  isin := []

/-- A ticker of the default venue. -/
def defaultSymbol (defaultVenue raw : PyText) : SymbolInfo where
  canonicalId := raw
  ticker := raw
  venueMic := defaultVenue
  currency := pyText "USD"
  country := pyText "US"
  name := raw
  ric := raw ++ pyText ".O"
  bloomberg := raw ++ pyText ":US"
  isin := []

/-- The first two rules that may apply: the tables, and then the suffixes. -/
def knownSymbol (raw : PyText) : Option SymbolInfo :=
  ((directoryMatch raw).or (identifierMatch raw)).or (aliasMatch raw) |>.or (suffixMatch raw)

/-- The tables of Unicode. -/
structure UnicodeTables extends CaseTable where
  isDigit : Nat → Bool

namespace UnicodeTables

variable (U : UnicodeTables)

/-- `str(symbol).strip().upper()`. -/
def normalized (symbol : PyText) : PyText := U.toUpper (trim symbol)

/-- The name an instrument had, or has, on a day. -/
def nameOn (asOfDate : PyText) (raw : PyText) : PyText :=
  let date := (trim asOfDate).take 10
  (historicalTickerChanges.findSome? (fun (old, new, changed) =>
    if raw = new ∧ date < changed then some old else if raw = old ∧ changed ≤ date then some new else none)).getD raw

/-- The rules, for a name that is in its normal form. -/
def resolve (defaultVenue raw : PyText) : SymbolInfo :=
  match knownSymbol raw with
  | some info => info
  | none => if raw.length = 4 ∧ raw.all U.isDigit then tokyoCode raw else defaultSymbol defaultVenue raw

/-- `resolve_symbol`. -/
def resolveSymbol (symbol : PyText) (defaultVenue : PyText := pyText "XNAS") (asOfDate : PyText := []) : SymbolInfo :=
  let raw := U.normalized symbol
  U.resolve defaultVenue (if asOfDate = [] then raw else nameOn asOfDate raw)

/-- `get_native_currency`. -/
def getNativeCurrency (instrumentId : PyText) : PyText := (U.resolveSymbol instrumentId).currency

end UnicodeTables

end Mdrap
