import BtApiBase.PyDictFills
import BtApiBase.PyText
import Mathlib.Algebra.Order.Field.Rat
import Mathlib.Tactic.Linarith

/-!
# Totals of the balance maps

The handlers write one entry for each account, or for each balance of an account, into two
maps under its currency. An entry whose currency comes again is overwritten.
-/

namespace BalanceMaps

open PyText PyDict PyDictFills

/-! ## The handlers -/

structure AccountData where
  accountType : Option PyStr
  margin : Option ℚ
  availableMargin : Option ℚ
  unrealizedProfit : Option ℚ

structure BalanceData where
  symbolName : Option PyStr
  margin : Option ℚ
  availableMargin : Option ℚ
  unrealizedProfit : Option ℚ

/-- An account that holds a balance for each currency. -/
structure NestedAccountData where
  balances : List BalanceData

abbrev Amounts := Dict PyStr ℚ
abbrev Maps := Dict PyStr Amounts × Dict PyStr Amounts

def _toFloat (value : Option ℚ) : ℚ := value.getD 0

def _currencyKey (value : Option PyStr) : PyStr := value.getD (u "")

/-- `{name: amount}` -/
def amounts (name : PyStr) (amount : ℚ) : Amounts := Dict.empty.set name amount

def _applyBalanceValues (results : Maps) (currency : PyStr)
    (margin availableMargin unrealizedProfit : Option ℚ) : Maps :=
  (results.1.set currency (amounts "value" (_toFloat margin + _toFloat unrealizedProfit)),
    results.2.set currency (amounts "cash" (_toFloat availableMargin)))

def simpleBalanceHandler (accountList : List AccountData) : Maps :=
  accountList.foldl (fun results account =>
    _applyBalanceValues results (_currencyKey account.accountType) account.margin
      account.availableMargin account.unrealizedProfit) (Dict.empty, Dict.empty)

def _updateNestedBalance (results : Maps) (balance : BalanceData) : Maps :=
  _applyBalanceValues results (_currencyKey balance.symbolName) balance.margin
    balance.availableMargin balance.unrealizedProfit

def nestedBalanceHandler (accountList : List NestedAccountData) : Maps :=
  accountList.foldl (fun results account => account.balances.foldl _updateNestedBalance results)
    (Dict.empty, Dict.empty)

/-! ## Totals -/

/-- What one account, or one balance, adds. -/
structure Holding where
  currency : PyStr
  value : ℚ
  cash : ℚ
  deriving DecidableEq

def AccountData.holding (a : AccountData) : Holding :=
  ⟨_currencyKey a.accountType, a.margin.getD 0 + a.unrealizedProfit.getD 0, a.availableMargin.getD 0⟩

def BalanceData.holding (b : BalanceData) : Holding :=
  ⟨_currencyKey b.symbolName, b.margin.getD 0 + b.unrealizedProfit.getD 0, b.availableMargin.getD 0⟩

/-- The sum over all currencies. -/
def total (name : PyStr) (result : Dict PyStr Amounts) : ℚ :=
  (result.values.map fun amounts => (amounts.get name).getD 0).sum

structure Conserves (results : Maps) (holdings : List Holding) : Prop where
  value : total "value" results.1 = (holdings.map Holding.value).sum
  cash : total "cash" results.2 = (holdings.map Holding.cash).sum
  keys : results.1.keys = results.2.keys

/-- What has been entered under a currency that comes again adds up to nothing. -/
def Negligible (holdings : List Holding) : Prop :=
  ((overwritten Holding.currency holdings).map Holding.value).sum = 0 ∧
    ((overwritten Holding.currency holdings).map Holding.cash).sum = 0

def entered (holdings : List Holding) : Maps :=
  (fill Holding.currency (fun h => amounts "value" h.value) Dict.empty holdings,
    fill Holding.currency (fun h => amounts "cash" h.cash) Dict.empty holdings)

theorem foldl_entered {α : Type} (holding : α → Holding) (as : List α) (d e : Dict PyStr Amounts) :
    as.foldl (fun results a => (results.1.set (holding a).currency (amounts "value" (holding a).value),
        results.2.set (holding a).currency (amounts "cash" (holding a).cash))) (d, e) =
      (fill Holding.currency (fun h => amounts "value" h.value) d (as.map holding),
        fill Holding.currency (fun h => amounts "cash" h.cash) e (as.map holding)) := by
  induction as generalizing d e with
  | nil => rfl
  | cons a as ih => exact ih ..

theorem simple_entered (accountList : List AccountData) :
    simpleBalanceHandler accountList = entered (accountList.map AccountData.holding) :=
  foldl_entered AccountData.holding accountList Dict.empty Dict.empty

theorem nested_entered (accountList : List NestedAccountData) :
    nestedBalanceHandler accountList =
      entered ((accountList.flatMap NestedAccountData.balances).map BalanceData.holding) := by
  unfold nestedBalanceHandler
  rw [← List.foldl_flatMap]
  exact foldl_entered BalanceData.holding _ Dict.empty Dict.empty

@[simp] theorem get_amounts (name : PyStr) (amount : ℚ) : (amounts name amount).get name = some amount :=
  Dict.get_set_same ..

theorem conserves_entered (holdings : List Holding) :
    Conserves (entered holdings) holdings ↔ Negligible holdings := by
  have hvalue := sum_fill Holding.currency (fun h => amounts "value" h.value)
    (fun amounts => (amounts.get "value").getD 0) holdings
  have hcash := sum_fill Holding.currency (fun h => amounts "cash" h.cash)
    (fun amounts => (amounts.get "cash").getD 0) holdings
  simp only [get_amounts, Option.getD_some] at hvalue hcash
  change total "value" (entered holdings).1 + _ = _ at hvalue
  change total "cash" (entered holdings).2 + _ = _ at hcash
  constructor
  · rintro ⟨htotal, hsum, -⟩
    constructor <;> linarith
  · rintro ⟨hlost, hgone⟩
    refine ⟨?_, ?_, keys_fill rfl holdings⟩ <;> linarith

/-- The totals are kept exactly if what is entered under currencies that come again adds up to
nothing; both maps always have the same keys. -/
theorem totals_conserved_iff (accounts : List AccountData) (nested : List NestedAccountData) :
    (Conserves (simpleBalanceHandler accounts) (accounts.map AccountData.holding) ↔
      Negligible (accounts.map AccountData.holding)) ∧
    (Conserves (nestedBalanceHandler nested)
        ((nested.flatMap NestedAccountData.balances).map BalanceData.holding) ↔
      Negligible ((nested.flatMap NestedAccountData.balances).map BalanceData.holding)) := by
  rw [simple_entered, nested_entered]
  exact ⟨conserves_entered _, conserves_entered _⟩

/-- Two accounts in one currency. -/
def sameCurrency : List AccountData :=
  [⟨some "USDT", some 1, some 1, none⟩, ⟨some "USDT", some 2, some 2, none⟩]

theorem first_account_lost :
    ¬ Conserves (simpleBalanceHandler sameCurrency) (sameCurrency.map AccountData.holding) := by
  rintro ⟨hvalue, -, -⟩
  have htotal : total "value" (simpleBalanceHandler sameCurrency).1 = 2 := by decide +kernel
  have hsum : ((sameCurrency.map AccountData.holding).map Holding.value).sum = 3 := by decide +kernel
  rw [htotal, hsum] at hvalue
  exact absurd hvalue (by norm_num)

end BalanceMaps
