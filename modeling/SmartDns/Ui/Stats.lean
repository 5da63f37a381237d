import SmartDns.Lib.Runs
import SmartDns.Http3.Setup

/-!
# Statistics across restarts

The totals of the statistics are atomics of 64 bits.  `save_status_data` writes them as
texts, `load_status_data` adds what it reads back to the totals of a new object.  Dropped
requests are counted with `fetch_and` where the other totals use `fetch_add`, and a total
of 0 is replaced by a count of the table `domain`.
-/

namespace SmartDns.Ui

open Http2 Http3

inductive Total where
  | request | blocked | failed | dropped
deriving DecidableEq

/-- `DataStatsItem`, without the counters of `qps`. -/
abbrev DataStatsItem := Total → UInt64

def DataStatsItem.new : DataStatsItem := fun _ => 0

def fetchAdd (item : DataStatsItem) (t : Total) (n : UInt64) : DataStatsItem :=
  Function.update item t (item t + n)

def addTotalRequest (item : DataStatsItem) := fetchAdd item .request

def addTotalBlockedRequest (item : DataStatsItem) := fetchAdd item .blocked

def addTotalFailedRequest (item : DataStatsItem) := fetchAdd item .failed

/-- `add_request_drop` on a target with atomics of 64 bits. -/
def addRequestDrop (item : DataStatsItem) (count : UInt64) : DataStatsItem :=
  Function.update item .dropped (item .dropped &&& count)

def DataStatsItem.add (item : DataStatsItem) : Total → UInt64 → DataStatsItem
  | .request => addTotalRequest item
  | .blocked => addTotalBlockedRequest item
  | .failed => addTotalFailedRequest item
  | .dropped => addRequestDrop item

/-- The table `status_data`, and the column `is_blocked` of the table `domain`. -/
structure Database where
  statusData : String → Option Bytes
  domain : List Bool

namespace Database

def setStatusData (db : Database) (key : String) (value : Bytes) : Database :=
  { db with statusData := Function.update db.statusData key (some value) }

def getDomainListCount (db : Database) (isBlocked : Option Bool) : UInt64 :=
  match isBlocked with
  | none => .ofNat db.domain.length
  | some b => .ofNat (db.domain.count b)

end Database

/-- `parse::<u64>`. -/
def parseU64 (text : Bytes) : Option UInt64 :=
  let digits := if text.head? == some 43 then text.drop 1 else text
  if digits ≠ [] ∧ digits.all isDigit ∧ digitsValue digits < 2 ^ 64 then
    some (.ofNat (digitsValue digits))
  else none

/-- The number saved under a key: 0 when there is none. -/
def savedCount (db : Database) (key : String) : UInt64 :=
  ((db.statusData key).bind parseU64).getD 0

def loadStatusData (item : DataStatsItem) (db : Database) : DataStatsItem :=
  let saved := savedCount db "total_request"
  let item := addTotalRequest item (if saved = 0 then db.getDomainListCount none else saved)
  let saved := savedCount db "total_blocked_request"
  let item := addTotalBlockedRequest item
    (if saved = 0 then db.getDomainListCount (some true) else saved)
  let item := addRequestDrop item (savedCount db "request_drop")
  addTotalFailedRequest item (savedCount db "total_failed_request")

def saveStatusData (item : DataStatsItem) (db : Database) : Database :=
  (((db.setStatusData "total_request" (decimal (item .request).toNat)).setStatusData
    "total_blocked_request" (decimal (item .blocked).toNat)).setStatusData
    "total_failed_request" (decimal (item .failed).toNat)).setStatusData
    "request_drop" (decimal (item .dropped).toNat)

/-- A statistics object, its database, and the numbers counted so far. -/
structure StatsSystem where
  item : DataStatsItem
  db : Database
  counted : Total → Nat

inductive StatsEvent where
  | count (t : Total) (n : UInt64)
  /-- The table `domain` changes. -/
  | domain (rows : List Bool)
  | save
  /-- `save_status_data`, then `load_status_data` in a new object. -/
  | restart

namespace StatsSystem

def init (db : Database) : StatsSystem := ⟨.new, db, fun _ => 0⟩

def step (s : StatsSystem) : StatsEvent → StatsSystem
  | .count t n =>
    ⟨s.item.add t n, s.db, Function.update s.counted t (s.counted t + n.toNat)⟩
  | .domain rows => { s with db := { s.db with domain := rows } }
  | .save => { s with db := saveStatusData s.item s.db }
  | .restart =>
    let db := saveStatusData s.item s.db
    { s with item := loadStatusData .new db, db := db }

/-- The totals reported are the numbers counted. -/
def Exact (s : StatsSystem) : Prop := ∀ t, (s.item t).toNat = s.counted t

/-- No request is counted as dropped, no total reaches 64 bits, and a restart with a total
of 0 finds no row to count in its place. -/
def Counts (s : StatsSystem) : StatsEvent → Prop
  | .count .dropped n => n = 0
  | .count t n => s.counted t + n.toNat < 2 ^ 64
  | .restart =>
    (s.item .request = 0 → s.db.getDomainListCount none = 0) ∧
      (s.item .blocked = 0 → s.db.getDomainListCount (some true) = 0)
  | _ => True

end StatsSystem

theorem parseU64_decimal (n : UInt64) : parseU64 (decimal n.toNat) = some n := by
  obtain ⟨-, -, hplus⟩ := decimal_start n.toNat
  have hdigits : (decimal n.toNat).all isDigit = true := List.all_eq_true.mpr (decimal_isDigit _)
  simp [parseU64, hplus, hdigits, decimal_ne_nil, digitsValue_decimal, n.toNat_lt]

/-- What a restart makes of the totals. -/
theorem load_save (item : DataStatsItem) (db : Database) :
    loadStatusData .new (saveStatusData item db) = fun
      | .request => if item .request = 0 then db.getDomainListCount none else item .request
      | .blocked =>
        if item .blocked = 0 then db.getDomainListCount (some true) else item .blocked
      | .failed => item .failed
      | .dropped => 0 := by
  funext t
  cases t <;>
    simp [loadStatusData, saveStatusData, savedCount, Database.setStatusData, parseU64_decimal,
      addTotalRequest, addTotalBlockedRequest, addTotalFailedRequest, addRequestDrop, fetchAdd,
      DataStatsItem.new, Database.getDomainListCount]

namespace StatsSystem

variable {s : StatsSystem}

/-- The total of dropped requests never leaves 0. -/
theorem step_dropped (h : s.item .dropped = 0) (e : StatsEvent) : (s.step e).item .dropped = 0 := by
  cases e with
  | count t n =>
    cases t <;> simp [step, DataStatsItem.add, addTotalRequest, addTotalBlockedRequest,
      addTotalFailedRequest, addRequestDrop, fetchAdd, h]
  | restart => simp only [step, load_save]
  | _ => exact h

theorem fetchAdd_exact_iff (h : s.Exact) (t : Total) (n : UInt64) :
    (∀ t', (fetchAdd s.item t n t').toNat =
      Function.update s.counted t (s.counted t + n.toNat) t') ↔
      s.counted t + n.toNat < 2 ^ 64 := by
  constructor
  · intro hexact
    have ht := hexact t
    rw [Function.update_self] at ht
    exact ht ▸ (fetchAdd s.item t n t).toNat_lt
  · intro hlt t'
    by_cases ht : t' = t
    · rw [ht, fetchAdd, Function.update_self, Function.update_self, UInt64.toNat_add, h t,
        Nat.mod_eq_of_lt hlt]
    · rw [fetchAdd, Function.update_of_ne ht, Function.update_of_ne ht, h t']

theorem step_exact_iff (h : s.Exact) (hdropped : s.item .dropped = 0) (e : StatsEvent) :
    (s.step e).Exact ↔ s.Counts e := by
  cases e with
  | count t n =>
    cases t with
    | dropped =>
      have hcounted : s.counted .dropped = 0 := by rw [← h .dropped, hdropped]; rfl
      constructor
      · intro hexact
        have hd := hexact .dropped
        simp only [step, DataStatsItem.add, addRequestDrop, Function.update_self, hdropped,
          hcounted, UInt64.zero_and, Nat.zero_add] at hd
        exact UInt64.toNat_inj.mp hd.symm
      · rintro rfl t
        cases t <;> simp [step, DataStatsItem.add, addRequestDrop, h _, hcounted]
    | _ => exact fetchAdd_exact_iff h _ n
  | restart =>
    simp only [Exact, step, load_save, Counts]
    constructor
    · intro hexact
      constructor
      · intro hzero
        have hr := hexact .request
        rw [← h .request, hzero, if_pos rfl] at hr
        exact UInt64.toNat_inj.mp hr
      · intro hzero
        have hr := hexact .blocked
        rw [← h .blocked, hzero, if_pos rfl] at hr
        exact UInt64.toNat_inj.mp hr
    · rintro ⟨hrequest, hblocked⟩ t
      rw [← h t]
      cases t with
      | request => grind
      | blocked => grind
      | failed => rfl
      | dropped => rw [hdropped]
  | _ => exact iff_of_true h trivial

/-- **Totals.**  They are the numbers counted, through every restart, in exactly the runs
that count no dropped request, stay within 64 bits, and restart with a total of 0 only when
the table `domain` counts 0 as well. -/
theorem totals_exact_iff (db : Database) (events : List StatsEvent) :
    (∀ seen, seen <+: events → (run step (init db) seen).Exact) ↔
      Admissible step Counts (init db) events := by
  have hdropped : ∀ seen, (run step (init db) seen).item .dropped = 0 := fun seen =>
    run_invariant step (fun s => s.item .dropped = 0) (fun _ e h _ => step_dropped h e) rfl
      (admissible_true step _ seen)
  rw [← @holds_throughout_iff _ _ step (fun s => s.Exact ∧ s.item .dropped = 0) _ (fun _ => True)
    ?_ _ ⟨fun _ => rfl, rfl⟩ _ fun _ _ => trivial]
  · simp [hdropped]
  · rintro s e ⟨h, hzero⟩ -
    rw [← step_exact_iff h hzero e]
    exact and_iff_left (step_dropped hzero e)

/-- One dropped request is not counted. -/
theorem dropped_request_lost :
    ¬ (run step (init ⟨fun _ => none, []⟩) [.count .dropped 1]).Exact := by
  intro h
  cases h .dropped

end StatsSystem

end SmartDns.Ui
