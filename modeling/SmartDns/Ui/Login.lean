import SmartDns.Lib.Runs

/-!
# Attempts to log in

The web interface counts the attempts to present a password.  The counter of
`login_attempts_check` is an `i32` that refused attempts raise without limit, and
release builds do not check its overflow.
-/

namespace SmartDns.Ui

/-- `login_attempts`: the counter, and a time in nanoseconds. -/
structure LoginAttempts where
  count : Int32
  since : Nat

/-- `login_attempts_check`, with what the first and the last reading of the clock give. -/
def loginAttemptsCheck (s : LoginAttempts) (now again : Nat) : LoginAttempts × Bool :=
  let since := if s.count = 0 then now else s.since
  let count := s.count + 1
  if 5 < count then
    let secs := (now - since) / 1000000000
    if secs < 60 then (⟨count, if secs < 30 then again else since⟩, false)
    else (⟨0, now⟩, true)
  else (⟨count, since⟩, true)

def loginAttemptsReset (again : Nat) : LoginAttempts :=
  ⟨0, again⟩

inductive AuthStatus
  | ok | noContent | badRequest | unauthorized | forbidden | internalServerError

/-- A request: whether its token and its body can be read, whether the password it presents
is right, and whether a new one can be stored. -/
inductive AuthCall
  | login (parsed right : Bool)
  | changePassword (token parsed right stored : Bool)

namespace AuthCall

def right : AuthCall → Bool
  | login _ right | changePassword _ _ right _ => right

/-- The request gets as far as `login_attempts_check`. -/
def checked : AuthCall → Bool
  | login parsed _ => parsed
  | changePassword token parsed _ _ => token && parsed

/-- `api_auth_login` and `api_auth_change_password`. -/
def perform (s : LoginAttempts) (now again : Nat) : AuthCall → LoginAttempts × AuthStatus
  | login parsed right =>
    if !parsed then (s, .badRequest) else
    match loginAttemptsCheck s now again with
    | (s, false) => (s, .forbidden)
    | (s, true) => if !right then (s, .unauthorized) else (loginAttemptsReset again, .ok)
  | changePassword token parsed right stored =>
    if !token then (s, .unauthorized) else
    if !parsed then (s, .badRequest) else
    match loginAttemptsCheck s now again with
    | (s, false) => (s, .forbidden)
    | (s, true) =>
      if !right then (s, .forbidden) else
      if !stored then (s, .internalServerError) else
      (loginAttemptsReset again, .noContent)

end AuthCall

structure AuthEvent where
  call : AuthCall
  now : Nat
  again : Nat

/-- The server, and the times at which a password was verified. -/
structure AuthServer where
  attempts : LoginAttempts
  verified : List Nat

open AuthServer

def AuthServer.step (s : AuthServer) (e : AuthEvent) : AuthServer where
  attempts := (e.call.perform s.attempts e.now e.again).1
  verified :=
    if e.call.checked && (loginAttemptsCheck s.attempts e.now e.again).2 then e.now :: s.verified
    else s.verified

/-- The passwords that were verified in a time of `seconds` from `start` on. -/
def AuthServer.guesses (s : AuthServer) (start seconds : Nat) : Nat :=
  s.verified.countP fun t => start ≤ t ∧ t ≤ start + seconds * 1000000000

/-- The clock never goes back. -/
def Chronological (events : List AuthEvent) : Prop :=
  (∀ e ∈ events, e.now ≤ e.again) ∧ events.Pairwise fun e e' => e.again ≤ e'.now

/-- The counter is not at its largest value, from which the check would wrap it. -/
def Countable (s : AuthServer) (_ : AuthEvent) : Prop :=
  s.attempts.count ≠ 2147483647

/-- How many attempts can still be let through in the time: after those that the counter
leaves, six for each minute that ends in what is left of it. -/
def room (s : LoginAttempts) (start seconds now : Nat) : Nat :=
  let limit := start + seconds * 1000000000
  if now < start then 6 * (seconds / 60) + 10
  else if limit < now then 0
  else if s.count.toInt = 0 then 5 + 6 * ((limit - now) / 60000000000)
  else (5 - s.count.toInt).toNat +
    6 * ((limit + 60000000000 - max now (s.since + 60000000000)) / 60000000000)

/-- What holds at every time `now` of a run. -/
structure Counting (s : LoginAttempts) (now : Nat) : Prop where
  count : 0 ≤ s.count.toInt
  since : s.since ≤ now

section Attempts

variable {s : LoginAttempts} {now x again start seconds : Nat}

theorem room_le (hpos : 0 ≤ s.count.toInt) (h : now ≤ x) :
    room s start seconds x ≤ room s start seconds now := by
  dsimp only [room]
  split_ifs <;> omega

theorem toInt_count_succ (hcount : s.count ≠ 2147483647) :
    (s.count + 1).toInt = s.count.toInt + 1 := by
  have hlt := s.count.toInt_lt
  have hge := s.count.le_toInt
  have hne : s.count.toInt ≠ 2147483647 := fun h => hcount (Int32.toInt_inj.mp h)
  rw [Int32.toInt_add, show (1 : Int32).toInt = 1 from rfl]
  exact Int.bmod_eq_of_le (by omega) (by omega)

/-- The outcomes of a check: one of the first attempts, one that is refused, and one that
starts a new minute. -/
theorem loginAttemptsCheck_cases (hsince : s.since ≤ x) (hcount : s.count ≠ 2147483647)
    (hagain : x ≤ again) :
    (∃ count since, loginAttemptsCheck s x again = (⟨count, since⟩, true) ∧
        count.toInt = s.count.toInt + 1 ∧ s.count.toInt < 5 ∧
        since = if s.count.toInt = 0 then x else s.since) ∨
      (∃ count since, loginAttemptsCheck s x again = (⟨count, since⟩, false) ∧
        count.toInt = s.count.toInt + 1 ∧ 5 ≤ s.count.toInt ∧ s.since ≤ since ∧ since ≤ again) ∨
      loginAttemptsCheck s x again = (⟨0, x⟩, true) ∧ 5 ≤ s.count.toInt ∧
        s.since + 60000000000 ≤ x := by
  have hsucc := toInt_count_succ hcount
  have hzero : s.count = 0 ↔ s.count.toInt = 0 := Int32.toInt_inj.symm
  have hfive : (5 : Int32) < s.count + 1 ↔ 5 < s.count.toInt + 1 := by
    rw [Int32.lt_iff_toInt_lt, hsucc]
    rfl
  simp only [loginAttemptsCheck, hfive, hzero]
  by_cases hlate : 5 < s.count.toInt + 1
  · have hne : s.count.toInt ≠ 0 := by omega
    rw [if_pos hlate, if_neg hne]
    split
    · refine .inr (.inl ⟨_, _, rfl, hsucc, by omega, ?_⟩)
      split <;> omega
    · exact .inr (.inr ⟨rfl, by omega, by omega⟩)
  · rw [if_neg hlate]
    exact .inl ⟨_, _, rfl, hsucc, by omega, rfl⟩

/-- What a check lets through is taken from the room. -/
theorem room_loginAttemptsCheck (h : Counting s now) (hcount : s.count ≠ 2147483647)
    (hnow : now ≤ x) (hagain : x ≤ again) :
    Counting (loginAttemptsCheck s x again).1 again ∧
      (if (loginAttemptsCheck s x again).2 ∧ start ≤ x ∧ x ≤ start + seconds * 1000000000
        then 1 else 0) + room (loginAttemptsCheck s x again).1 start seconds x ≤
          room s start seconds now := by
  obtain ⟨hpos, hsince⟩ := h
  rcases loginAttemptsCheck_cases (hsince.trans hnow) hcount hagain with
    ⟨count, since, hcheck, hsucc, hlt, rfl⟩ | ⟨count, since, hcheck, hsucc, hge, hle, hle'⟩ |
    ⟨hcheck, hge, hle⟩
  · rw [hcheck]
    refine ⟨⟨by dsimp only; omega, by dsimp only; split <;> omega⟩, ?_⟩
    simp only [room, hsucc, true_and]
    split_ifs <;> omega
  · rw [hcheck]
    refine ⟨⟨by dsimp only; omega, hle'⟩, ?_⟩
    simp only [room, hsucc, false_and, Bool.false_eq_true, if_false]
    split_ifs <;> omega
  · rw [hcheck]
    refine ⟨⟨le_rfl, hagain⟩, ?_⟩
    simp only [room, true_and, show (0 : Int32).toInt = 0 from rfl, if_true]
    split_ifs <;> omega

theorem perform_fst {call : AuthCall} (hwrong : call.right = false) :
    (call.perform s x again).1 = if call.checked then (loginAttemptsCheck s x again).1 else s := by
  cases call with
  | login parsed right =>
    cases hwrong
    simp only [AuthCall.perform, AuthCall.checked]
    obtain ⟨s', _ | _⟩ := loginAttemptsCheck s x again <;> cases parsed <;> rfl
  | changePassword token parsed right stored =>
    cases hwrong
    simp only [AuthCall.perform, AuthCall.checked]
    obtain ⟨s', _ | _⟩ := loginAttemptsCheck s x again <;> cases token <;> cases parsed <;> rfl

theorem guesses_step {server : AuthServer} {e : AuthEvent} (hwrong : e.call.right = false)
    (hagain : e.now ≤ e.again) (hnow : now ≤ e.now) (h : Counting server.attempts now)
    (hok : Countable server e) :
    Counting (server.step e).attempts e.again ∧
      (server.step e).guesses start seconds + room (server.step e).attempts start seconds e.now ≤
        server.guesses start seconds + room server.attempts start seconds now := by
  simp only [step, guesses, perform_fst hwrong]
  by_cases hchecked : e.call.checked = true
  · obtain ⟨hcounting, hroom⟩ := @room_loginAttemptsCheck server.attempts now e.now e.again start
      seconds h hok hnow hagain
    rw [if_pos hchecked, hchecked, Bool.true_and]
    refine ⟨hcounting, ?_⟩
    cases hlet : (loginAttemptsCheck server.attempts e.now e.again).2 with
    | false =>
      simp only [hlet, Bool.false_eq_true, false_and, if_false] at hroom ⊢
      omega
    | true =>
      simp only [hlet, true_and, if_true, List.countP_cons, decide_eq_true_eq] at hroom ⊢
      omega
  · rw [if_neg hchecked, Bool.eq_false_of_not_eq_true hchecked, Bool.false_and]
    exact ⟨⟨h.count, h.since.trans (hnow.trans hagain)⟩,
      Nat.add_le_add_left (room_le h.count hnow) _⟩

theorem guesses_run {server : AuthServer} {events : List AuthEvent}
    (hwrong : ∀ e ∈ events, e.call.right = false) (hclock : Chronological events)
    (hlater : ∀ e ∈ events, now ≤ e.now) (h : Counting server.attempts now)
    (hok : Admissible step Countable server events) :
    (run step server events).guesses start seconds ≤
      server.guesses start seconds + room server.attempts start seconds now := by
  induction events generalizing server now with
  | nil => exact Nat.le_add_right _ _
  | cons e events ih =>
  obtain ⟨hwrong, hwrongs⟩ := List.forall_mem_cons.mp hwrong
  obtain ⟨hagain, hagains⟩ := List.forall_mem_cons.mp hclock.1
  obtain ⟨hnext, hnexts⟩ := List.pairwise_cons.mp hclock.2
  obtain ⟨hcounting, hstep⟩ := @guesses_step now start seconds server e hwrong hagain
    (hlater e List.mem_cons_self) h hok.1
  have hrest := ih hwrongs ⟨hagains, hnexts⟩ hnext hcounting hok.2
  exact (hrest.trans (Nat.add_le_add_left (room_le hcounting.count hagain) _)).trans hstep

end Attempts

/-- **Password guessing is rate limited** as long as the counter does not overflow: in any time
of whole seconds at most six passwords a minute, and ten more, are verified. -/
theorem guesses_limited (clock : Nat) (events : List AuthEvent)
    (hwrong : ∀ e ∈ events, e.call.right = false) (hclock : Chronological events)
    (hlater : ∀ e ∈ events, clock ≤ e.now)
    (hok : Admissible step Countable ⟨⟨0, clock⟩, []⟩ events) (start seconds : Nat) :
    (run step ⟨⟨0, clock⟩, []⟩ events).guesses start seconds ≤
      6 * (seconds / 60) + 10 := by
  have hbound := @guesses_run clock start seconds ⟨⟨0, clock⟩, []⟩ events hwrong hclock hlater
    ⟨le_rfl, le_rfl⟩ hok
  have hroom : room ⟨0, clock⟩ start seconds clock ≤ 6 * (seconds / 60) + 10 := by
    simp only [room, show (0 : Int32).toInt = 0 from rfl, if_true]
    split_ifs <;> omega
  exact (hbound.trans (Nat.add_le_add_left hroom _)).trans_eq (Nat.zero_add _)

/-- A login with a wrong password, at the start of the server. -/
def wrongLogin : AuthEvent := ⟨.login true false, 0, 0⟩

/-- Of seven attempts five are verified. -/
theorem guesses_limited_sevenAttempts :
    let s := run step ⟨⟨0, 0⟩, []⟩ (List.replicate 7 wrongLogin)
    s.guesses 0 59 = 5 ∧ s.guesses 0 59 ≤ 10 := by
  refine ⟨by decide, guesses_limited 0 (List.replicate 7 wrongLogin) (by simp [wrongLogin,
    AuthCall.right]) (by simp [Chronological, wrongLogin]) (by simp) ?_ 0 59⟩
  exact ⟨nofun, nofun, nofun, nofun, nofun, nofun, nofun, trivial⟩

/-- The sixth attempt and those after it are refused. -/
theorem run_wrongLogins (k : Nat) (hk : k + 6 < 2 ^ 31) :
    run step ⟨⟨0, 0⟩, []⟩ (List.replicate (k + 6) wrongLogin) =
      ⟨⟨Int32.ofNat (k + 6), 0⟩, [0, 0, 0, 0, 0]⟩ := by
  induction k with
  | zero => rfl
  | succ k ih =>
  have hlate : (5 : Int32) < Int32.ofNat (k + 6 + 1) := by
    rw [Int32.lt_iff_toInt_lt, Int32.toInt_ofNat_of_lt (by omega)]
    change (5 : Int) < _
    omega
  rw [Nat.add_right_comm, List.replicate_succ', run_append, ih (by omega)]
  rw [Int32.ofNat_add (k + 6) 1] at hlate ⊢
  generalize Int32.ofNat (k + 6) = count at hlate ⊢
  have hcheck : loginAttemptsCheck ⟨count, 0⟩ 0 0 = (⟨count + Int32.ofNat 1, 0⟩, false) := by
    simp only [loginAttemptsCheck, ite_self]
    exact if_pos hlate
  simp [step, wrongLogin, AuthCall.perform, hcheck]

/-- The counter overflows: eleven passwords are verified at one time. -/
theorem overflow_admits :
    ¬(run step ⟨⟨0, 0⟩, []⟩ (List.replicate (2 ^ 31 + 5) wrongLogin)).guesses 0 0 ≤
      6 * (0 / 60) + 10 := by
  rw [show 2 ^ 31 + 5 = 2 ^ 31 - 7 + 6 + 6 from rfl, List.replicate_add, run_append,
    run_wrongLogins _ (by decide)]
  decide

end SmartDns.Ui
