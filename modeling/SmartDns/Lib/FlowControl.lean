import Mathlib.Logic.Function.Basic
import Mathlib.Tactic

/-!
# Credit-based flow control

A sender with many streams over one connection.  The peer grants credit to the
connection and to every stream; every stream also starts with an initial
window, which the peer may change at any time, for all open streams at once and
possibly below what a stream has already spent.

The invariant ties the peer's grants to the sender's own variables: no stream and
no connection sends more than it was granted, and no window falls below the
negative of the largest initial window.
-/

namespace SmartDns

open Function

universe u

variable {limit : Int}

/-- The peer's grants and the sender's variables. -/
structure FlowState (κ : Type u) where
  /-- The peer's current initial window. -/
  initial : Int
  /-- The peer's current limit on one payload. -/
  maxFrame : Nat
  /-- Everything granted to the connection. -/
  connGrant : Int
  /-- What was granted to a stream beyond the initial window. -/
  credit : κ → Int
  /-- The sender's connection window. -/
  conn : Int
  /-- The sender's stream windows. -/
  window : κ → Int
  opened : κ → Bool
  /-- The streams that have been opened at some time. -/
  used : κ → Bool
  /-- The payloads sent, with the stream of each. -/
  sent : List (κ × Nat)

namespace FlowState

section FlowControl

variable {κ : Type u}

/-- What the peer has granted a stream. -/
def granted (s : FlowState κ) (k : κ) : Int :=
  s.initial + s.credit k

def payload (frames : List (κ × Nat)) : Nat :=
  (frames.map Prod.snd).sum

@[simp] theorem payload_append (frames frames' : List (κ × Nat)) :
    payload (frames ++ frames') = payload frames + payload frames' := by
  simp [payload]

@[simp] theorem payload_singleton (f : κ × Nat) : payload [f] = f.2 := by
  simp [payload]

variable [DecidableEq κ]

/-- The payload in a list of frames that belongs to one stream. -/
def payloadOf (k : κ) (frames : List (κ × Nat)) : Nat :=
  (frames.map fun f => if f.1 = k then f.2 else 0).sum

@[simp] theorem payloadOf_nil (k : κ) : payloadOf k [] = 0 := rfl

@[simp] theorem payloadOf_append (k : κ) (frames frames' : List (κ × Nat)) :
    payloadOf k (frames ++ frames') = payloadOf k frames + payloadOf k frames' := by
  simp [payloadOf]

@[simp] theorem payloadOf_singleton (k : κ) (f : κ × Nat) :
    payloadOf k [f] = if f.1 = k then f.2 else 0 := by
  simp [payloadOf]

/-- What a stream has spent. -/
def spent (s : FlowState κ) (k : κ) : Nat :=
  payloadOf k s.sent

/-- Send `n` bytes on a stream. -/
def spend (s : FlowState κ) (k : κ) (n : Nat) : FlowState κ :=
  { s with
    conn := s.conn - n
    window := update s.window k (s.window k - n)
    sent := s.sent ++ [(k, n)] }

/-- The peer grants `n` bytes to the connection. -/
def grantConn (s : FlowState κ) (n : Nat) : FlowState κ :=
  { s with connGrant := s.connGrant + n, conn := s.conn + n }

/-- The peer grants `n` bytes to a stream. -/
def grantStream (s : FlowState κ) (k : κ) (n : Nat) : FlowState κ :=
  { s with
    credit := update s.credit k (s.credit k + n)
    window := update s.window k (s.window k + n) }

/-- The peer changes the initial window, and with it every open window. -/
def setInitial (s : FlowState κ) (initial : Int) : FlowState κ :=
  { s with
    initial := initial
    window := fun k =>
      if s.opened k then s.window k + (initial - s.initial)
      else s.window k }

/-- A stream that was never used is opened. -/
def openStream (s : FlowState κ) (k : κ) : FlowState κ :=
  { s with
    opened := update s.opened k true
    used := update s.used k true
    window := update s.window k s.initial }

/-- A stream is given up. -/
def closeStream (s : FlowState κ) (k : κ) : FlowState κ :=
  { s with opened := update s.opened k false }

/-- The sender's variables agree with the grants; `limit` is the largest
initial window. -/
structure Inv (limit : Int) (s : FlowState κ) : Prop where
  used_of_opened : ∀ k, s.opened k = true → s.used k = true
  fresh : ∀ k, s.used k = false → s.credit k = 0 ∧ s.spent k = 0
  conn : s.conn = s.connGrant - payload s.sent
  conn_nonneg : 0 ≤ s.conn
  initial_nonneg : 0 ≤ s.initial
  initial_le : s.initial ≤ limit
  window : ∀ k, s.opened k = true → s.window k = s.granted k - s.spent k
  spent_le : ∀ k, s.opened k = true → s.spent k ≤ limit + s.credit k
  floor : ∀ k, -limit ≤ s.window k

/-- A payload that the windows and the frame limit allow; an empty one always
is. -/
structure MaySpend (s : FlowState κ) (k : κ) (n : Nat) : Prop where
  opened : s.opened k = true
  windows : n = 0 ∨ (n ≤ s.window k ∧ n ≤ s.conn)
  frame : n ≤ s.maxFrame

variable {s t : FlowState κ}

theorem Inv.spend (h : s.Inv limit) {k : κ} {n : Nat} (hmay : s.MaySpend k n) :
    (s.spend k n).Inv limit := by
  have hopen := hmay.opened
  have hwin := h.window k hopen
  have hwindows := hmay.windows
  have hle := h.initial_le
  have hspent : ∀ j, (s.spend k n).spent j =
      s.spent j + (if k = j then n else 0) := by
    intro j
    simp [FlowState.spend, spent]
  refine
    { used_of_opened := h.used_of_opened
      fresh := fun j hj => ?_
      conn := ?_
      conn_nonneg := ?_
      initial_nonneg := h.initial_nonneg
      initial_le := h.initial_le
      window := fun j hj => ?_
      spent_le := fun j hj => ?_
      floor := fun j => ?_ }
  · have hne : k ≠ j := by
      rintro rfl
      have := h.used_of_opened k hopen
      simp_all [FlowState.spend]
    rw [hspent j, if_neg hne, Nat.add_zero]
    exact h.fresh j hj
  · have := h.conn
    simp only [FlowState.spend, payload_append, payload_singleton]
    omega
  · have := h.conn_nonneg
    simp only [FlowState.spend]
    omega
  · have hj' := h.window j hj
    rw [hspent j]
    by_cases hjk : j = k
    · subst hjk
      simp only [FlowState.spend, update_self, granted] at hj' ⊢
      simp
      omega
    · have hkj : k ≠ j := fun h => hjk h.symm
      simpa [FlowState.spend, granted, update_of_ne hjk, hkj]
        using hj'
  · have hj' := h.spent_le j hj
    rw [hspent j]
    by_cases hjk : k = j
    · subst hjk
      simp only [granted] at hwin
      simp only [FlowState.spend, if_true]
      omega
    · simpa [FlowState.spend, hjk] using hj'
  · have hj' := h.floor j
    by_cases hjk : j = k
    · subst hjk
      simp only [FlowState.spend, update_self]
      have := h.initial_nonneg
      omega
    · simpa [FlowState.spend, update_of_ne hjk] using hj'

theorem Inv.grantConn (h : s.Inv limit) (n : Nat) : (s.grantConn n).Inv limit := by
  have hconn := h.conn
  have hnonneg := h.conn_nonneg
  refine ⟨h.used_of_opened, h.fresh, ?_, ?_, h.initial_nonneg, h.initial_le,
    h.window, h.spent_le, h.floor⟩
  · simp only [FlowState.grantConn]
    omega
  · simp only [FlowState.grantConn]
    omega

theorem Inv.grantStream (h : s.Inv limit) {k : κ} (hopen : s.opened k = true) (n : Nat) :
    (s.grantStream k n).Inv limit := by
  refine ⟨h.used_of_opened, fun j hj => ?_, h.conn, h.conn_nonneg,
    h.initial_nonneg, h.initial_le, fun j hj => ?_, fun j hj => ?_,
    fun j => ?_⟩
  · have hne : j ≠ k := by
      rintro rfl
      have := h.used_of_opened j hopen
      simp_all [FlowState.grantStream]
    simpa [FlowState.grantStream, spent, update_of_ne hne] using h.fresh j hj
  · have hj' := h.window j hj
    by_cases hjk : j = k
    · subst hjk
      simp only [FlowState.grantStream, granted, spent, update_self] at hj' ⊢
      omega
    · simpa [FlowState.grantStream, granted, spent, update_of_ne hjk] using hj'
  · have hj' := h.spent_le j hj
    by_cases hjk : j = k
    · subst hjk
      simp only [FlowState.grantStream, spent, update_self] at hj' ⊢
      omega
    · simpa [FlowState.grantStream, spent, update_of_ne hjk] using hj'
  · have hj' := h.floor j
    by_cases hjk : j = k
    · subst hjk
      simp only [FlowState.grantStream, update_self]
      omega
    · simpa [FlowState.grantStream, update_of_ne hjk] using hj'

theorem Inv.setInitial (h : s.Inv limit) {initial : Int} (hnonneg : 0 ≤ initial)
    (hle : initial ≤ limit) :
    (s.setInitial initial).Inv limit := by
  refine ⟨h.used_of_opened, h.fresh, h.conn, h.conn_nonneg, hnonneg, hle,
    fun k hk => ?_, h.spent_le, fun k => ?_⟩
  · have hk' := h.window k hk
    have hopen : s.opened k = true := hk
    simp only [FlowState.setInitial, granted, spent, hopen, if_true] at hk' ⊢
    omega
  · have hk' := h.floor k
    simp only [FlowState.setInitial]
    split
    next hopen =>
      have hwin := h.window k hopen
      have hspent := h.spent_le k hopen
      simp only [granted] at hwin
      omega
    · exact hk'

theorem Inv.setMaxFrame (h : s.Inv limit) (maxFrame : Nat) :
    Inv limit { s with maxFrame := maxFrame } :=
  ⟨h.used_of_opened, h.fresh, h.conn, h.conn_nonneg, h.initial_nonneg,
    h.initial_le, h.window, h.spent_le, h.floor⟩

theorem Inv.openStream (h : s.Inv limit) {k : κ} (hfresh : s.used k = false) :
    (s.openStream k).Inv limit := by
  have hzero := h.fresh k hfresh
  have hinit := h.initial_nonneg
  have hle := h.initial_le
  refine ⟨fun j hj => ?_, fun j hj => ?_, h.conn, h.conn_nonneg,
    h.initial_nonneg, h.initial_le, fun j hj => ?_, fun j hj => ?_,
    fun j => ?_⟩
  all_goals by_cases hjk : j = k
  · subst hjk
    simp [FlowState.openStream]
  · simp only [FlowState.openStream, update_of_ne hjk] at hj ⊢
    exact h.used_of_opened j hj
  · subst hjk
    simp [FlowState.openStream] at hj
  · simp only [FlowState.openStream, update_of_ne hjk] at hj ⊢
    exact h.fresh j hj
  · subst hjk
    simp only [FlowState.openStream, granted, spent, update_self] at hzero ⊢
    omega
  · simp only [FlowState.openStream, update_of_ne hjk] at hj ⊢
    exact h.window j hj
  · subst hjk
    simp only [FlowState.openStream, spent] at hzero ⊢
    omega
  · simp only [FlowState.openStream, update_of_ne hjk] at hj ⊢
    exact h.spent_le j hj
  · subst hjk
    simp only [FlowState.openStream, update_self]
    omega
  · simpa [FlowState.openStream, update_of_ne hjk] using h.floor j

theorem Inv.closeStream (h : s.Inv limit) (k : κ) : (s.closeStream k).Inv limit := by
  have hsub : ∀ j, (s.closeStream k).opened j = true → s.opened j = true := by
    intro j hj
    by_cases hjk : j = k
    · subst hjk
      simp [FlowState.closeStream] at hj
    · simpa [FlowState.closeStream, update_of_ne hjk] using hj
  exact ⟨fun j hj => h.used_of_opened j (hsub j hj), h.fresh, h.conn,
    h.conn_nonneg, h.initial_nonneg, h.initial_le,
    fun j hj => h.window j (hsub j hj), fun j hj => h.spent_le j (hsub j hj),
    h.floor⟩

/-- A stretch of sending: payloads that may be sent, and streams given up. -/
inductive Spends : FlowState κ → FlowState κ → Prop
  | refl (s : FlowState κ) : Spends s s
  | spend {s t : FlowState κ} {k : κ} {n : Nat} :
      Spends s t → t.MaySpend k n → Spends s (t.spend k n)
  | close {s t : FlowState κ} (k : κ) :
      Spends s t → Spends s (t.closeStream k)

theorem Spends.trans {v : FlowState κ} (h₁ : Spends s t) (h₂ : Spends t v) : Spends s v := by
  induction h₂ with
  | refl => exact h₁
  | spend _ hmay ih => exact .spend ih hmay
  | close k _ ih => exact .close k ih

theorem Spends.inv (h : Spends s t) (hinv : s.Inv limit) : t.Inv limit := by
  induction h with
  | refl => exact hinv
  | spend _ hmay ih => exact ih.spend hmay
  | close k _ ih => exact ih.closeStream k

theorem Spends.grants (h : Spends s t) :
    t.initial = s.initial ∧ t.credit = s.credit ∧
      t.connGrant = s.connGrant ∧ t.maxFrame = s.maxFrame := by
  induction h with
  | refl => exact ⟨rfl, rfl, rfl, rfl⟩
  | spend _ _ ih => exact ih
  | close _ _ ih => exact ih

/-- **At the moment of sending** a stream stays within what it was granted. -/
theorem Spends.spent_le_granted (h : Spends s t) (hinv : s.Inv limit) (k : κ) :
    t.spent k = s.spent k ∨ t.spent k ≤ t.granted k := by
  induction h with
  | refl => exact .inl rfl
  | @spend t j n hpre hmay ih =>
    have hspent : (t.spend j n).spent k = t.spent k + (if j = k then n else 0) := by
      simp [FlowState.spend, spent]
    have hgranted : (t.spend j n).granted k = t.granted k := rfl
    rw [hspent, hgranted]
    by_cases hjk : j = k
    · subst hjk
      have hwin := (hpre.inv hinv).window j hmay.opened
      rw [if_pos rfl]
      rcases hmay.windows with hzero | hle
      · subst hzero
        simpa using ih
      · omega
    · simpa [hjk] using ih
  | close j _ ih => exact ih

theorem Spends.frames (h : Spends s t) :
    ∃ frames, t.sent = s.sent ++ frames ∧ ∀ f ∈ frames, f.2 ≤ s.maxFrame := by
  induction h with
  | refl => exact ⟨[], by simp, by simp⟩
  | @spend t k n hpre hmay ih =>
    obtain ⟨frames, hsent, hle⟩ := ih
    refine ⟨frames ++ [(k, n)], ?_, ?_⟩
    · simp [FlowState.spend, hsent]
    · intro f hf
      rcases List.mem_append.mp hf with hf | hf
      · exact hle f hf
      · rw [List.mem_singleton.mp hf, ← hpre.grants.2.2.2]
        exact hmay.frame
  | close _ _ ih => exact ih

/-- The variables fit a machine word that ends at `limit`. -/
structure Bounded (limit : Int) (s : FlowState κ) : Prop where
  conn_nonneg : 0 ≤ s.conn
  conn_le : s.conn ≤ limit
  initial_nonneg : 0 ≤ s.initial
  initial_le : s.initial ≤ limit
  window_ge : ∀ k, -limit - 1 ≤ s.window k
  window_le : ∀ k, s.window k ≤ limit

theorem Bounded.setWindow (h : s.Bounded limit) (hconn : t.conn = s.conn)
    (hinitial : t.initial = s.initial) {k : κ} {w : Int} (hge : -limit - 1 ≤ w) (hle : w ≤ limit)
    (hwindow : t.window = update s.window k w) :
    t.Bounded limit := by
  refine ⟨hconn ▸ h.conn_nonneg, hconn ▸ h.conn_le,
    hinitial ▸ h.initial_nonneg, hinitial ▸ h.initial_le,
    fun j => ?_, fun j => ?_⟩
  all_goals
    rw [hwindow]
    by_cases hjk : j = k
  · subst hjk
    rwa [update_self]
  · rw [update_of_ne hjk]
    exact h.window_ge j
  · subst hjk
    rwa [update_self]
  · rw [update_of_ne hjk]
    exact h.window_le j

theorem Bounded.spend (h : s.Bounded limit) {k : κ} {n : Nat} (hmay : s.MaySpend k n) :
    (s.spend k n).Bounded limit := by
  have hge := h.window_ge k
  have hle := h.window_le k
  have hconn := h.conn_nonneg
  have hconn' := h.conn_le
  have hwindows := hmay.windows
  have hspent : Bounded limit { s with conn := s.conn - n } :=
    ⟨by dsimp only; omega, by dsimp only; omega, h.initial_nonneg,
      h.initial_le, h.window_ge, h.window_le⟩
  exact hspent.setWindow rfl rfl (by omega) (by omega) rfl

theorem Bounded.openStream (h : s.Bounded limit) (k : κ) : (s.openStream k).Bounded limit := by
  have hge := h.initial_nonneg
  have hle := h.initial_le
  exact h.setWindow rfl rfl (by omega) hle rfl

theorem Bounded.closeStream (h : s.Bounded limit) (k : κ) : (s.closeStream k).Bounded limit :=
  ⟨h.conn_nonneg, h.conn_le, h.initial_nonneg, h.initial_le, h.window_ge, h.window_le⟩

theorem Spends.bounded (h : Spends s t) (hbounded : s.Bounded limit) : t.Bounded limit := by
  induction h with
  | refl => exact hbounded
  | spend _ hmay ih => exact ih.spend hmay
  | close k _ ih => exact ih.closeStream k

theorem Inv.payload_le (h : s.Inv limit) : payload s.sent ≤ s.connGrant := by
  have := h.conn
  have := h.conn_nonneg
  omega

end FlowControl

end FlowState

end SmartDns
