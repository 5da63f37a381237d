import SmartDns.Lib.Bytes
import Mathlib.Data.List.Nodup

/-!
# Chains of CNAME rules

A request whose name has a CNAME rule is answered by a child request for the
target of the rule, and the child may have a rule again.  A child whose rule could
lead back is marked and does not follow its rule: its name contains the name of a
request before its parent, or its rule leads to itself.  So every chain ends; the
test for the name is `strstr`, so it may end although it does not come back.
-/

namespace SmartDns.Server

open List

/-- What is found for a name: the target of its CNAME rule, whether the flags in
`rules[DOMAIN_RULE_FLAGS]` have `DOMAIN_FLAG_CNAME_IGN`, and whether the flags of all
rules that match the name have it. -/
structure CnameRule where
  cname : Option Bytes
  ignored : Bool
  anyIgnored : Bool
  all : ignored = true → anyIgnored = true

/-- `struct dns_request`, for CNAME rules. -/
structure CnameRequest where
  domain : Bytes
  rule : CnameRule
  hasCnameLoop : Bool

/-- `strncasecmp(a, b, DNS_MAX_CNAME_LEN) == 0`. -/
def sameName (a b : Bytes) : Bool :=
  a.map toLower = b.map toLower

abbrev CnameConf := Bytes → CnameRule

/-- The loop over the requests before the parent of a child. -/
def loopRule (domain : Bytes) : List CnameRequest → Bool
  | [] => false
  | check :: rest =>
    if check.rule.cname = none then false
    else if check.domain <:+: domain then true
    else loopRule domain rest

/-- The checks for a loop of a child.  The ancestors begin with its parent. -/
def cnameLoops (conf : CnameConf) (domain : Bytes) (ancestors : List CnameRequest) : Bool :=
  match (conf domain).cname with
  | none => false
  | some cname => sameName domain cname || loopRule domain ancestors.tail

/-- `_dns_server_new_child_request`, and what becomes of a child with a loop. -/
def newChild (conf : CnameConf) (domain : Bytes) (ancestors : List CnameRequest) :
    CnameRequest where
  domain := domain
  rule :=
    if cnameLoops conf domain ancestors then { conf domain with cname := none } else conf domain
  hasCnameLoop := cnameLoops conf domain ancestors

/-- `_dns_server_process_cname_pre`; `exactLocal` is what
`_dns_server_has_exact_local_record` returns. -/
def dnsServerProcessCnamePre (conf : CnameConf) (exactLocal : Bool) (request : CnameRequest) :
    CnameRequest :=
  if request.hasCnameLoop ∨ exactLocal ∨ request.rule.anyIgnored then request
  else
    match request.rule.cname with
    | none => request
    | some cname => { request with rule := { conf cname with cname := some cname } }

/-- The child that `_dns_server_process_cname` starts. -/
def dnsServerProcessCname (conf : CnameConf) (request : CnameRequest)
    (ancestors : List CnameRequest) : Option CnameRequest :=
  if request.hasCnameLoop ∨ request.rule.ignored then none
  else
    match request.rule.cname with
    | none => none
    | some cname =>
      let child := newChild conf cname (request :: ancestors)
      if child.hasCnameLoop ∧ sameName request.domain cname then none else some child

/-- What a request meets in `_dns_server_do_query`: the group it is in, whether it gets
to its CNAME rule or is answered before, and `exactLocal`. -/
structure CnameStage where
  conf : CnameConf
  reached : Bool
  exactLocal : Bool

/-- The child requests that follow from a request, at most `n`. -/
def cnameChildren (stages : Nat → CnameStage) :
    Nat → CnameRequest → List CnameRequest → List CnameRequest
  | 0, _, _ => []
  | n + 1, request, ancestors =>
    let stage := stages ancestors.length
    let request := dnsServerProcessCnamePre stage.conf stage.exactLocal request
    match if stage.reached then dnsServerProcessCname stage.conf request ancestors else none with
    | none => []
    | some child => child :: cnameChildren stages n child (request :: ancestors)

/-- CNAME rules, by their targets, and what the requests of a chain meet. -/
structure CnameSetup where
  targets : List Bytes
  stages : Nat → CnameStage
  within : ∀ k name target, ((stages k).conf name).cname = some target → target ∈ targets

section Chains

variable {conf : CnameConf} {stages : Nat → CnameStage} {request child : CnameRequest}
variable {seen rest ancestors : List CnameRequest} {domain target : Bytes} {n : Nat}

theorem loopRule_append (h : ∀ a ∈ seen, a.rule.cname ≠ none) :
    loopRule domain (seen ++ rest) = true ↔
      (∃ a ∈ seen, a.domain <:+: domain) ∨ loopRule domain rest = true := by
  induction seen with
  | nil => simp
  | cons a seen ih =>
    obtain ⟨ha, hseen⟩ := forall_mem_cons.mp h
    rw [cons_append, loopRule, if_neg ha]
    by_cases hin : a.domain <:+: domain <;> simp [hin, ih hseen]

theorem pre_cname (conf : CnameConf) (exactLocal : Bool) (request : CnameRequest) :
    (dnsServerProcessCnamePre conf exactLocal request).domain = request.domain ∧
      (dnsServerProcessCnamePre conf exactLocal request).hasCnameLoop = request.hasCnameLoop ∧
      (dnsServerProcessCnamePre conf exactLocal request).rule.cname = request.rule.cname := by
  unfold dnsServerProcessCnamePre
  split
  · exact ⟨rfl, rfl, rfl⟩
  split
  · exact ⟨rfl, rfl, rfl⟩
  next cname hcname => exact ⟨rfl, rfl, hcname.symm⟩

/-- A request has no child, or the first one stands for the target of its rule. -/
theorem cnameChildren_succ (stages : Nat → CnameStage) (n : Nat) (request : CnameRequest)
    (ancestors : List CnameRequest) :
    cnameChildren stages (n + 1) request ancestors = [] ∨
      ∃ cname parent, request.rule.cname = some cname ∧ parent.rule.cname = some cname ∧
        parent.domain = request.domain ∧
        cnameChildren stages (n + 1) request ancestors =
          let child := newChild (stages ancestors.length).conf cname (parent :: ancestors)
          child :: cnameChildren stages n child (parent :: ancestors) := by
  rw [cnameChildren]
  split
  · exact .inl rfl
  next child hchild =>
  split at hchild
  · unfold dnsServerProcessCname at hchild
    split at hchild
    · cases hchild
    split at hchild
    · cases hchild
    next cname hcname =>
    dsimp only at hchild
    split at hchild
    · cases hchild
    obtain rfl := Option.some.inj hchild
    obtain ⟨hdomain, -, hkept⟩ := pre_cname (stages ancestors.length).conf
      (stages ancestors.length).exactLocal request
    exact .inr ⟨cname, _, hkept.symm.trans hcname, hcname, hdomain, rfl⟩
  · cases hchild

theorem cnameChildren_of_none (h : request.rule.cname = none) :
    cnameChildren stages n request ancestors = [] := by
  cases n with
  | zero => rfl
  | succ n =>
    rcases cnameChildren_succ stages n request ancestors with hnil | ⟨cname, -, hcname, -⟩
    · exact hnil
    · cases h.symm.trans hcname

/-- A child that has a rule to follow does not lead to itself, and does not contain a
name before its parent. -/
theorem newChild_follows (h : (newChild conf domain ancestors).rule.cname = some target) :
    (conf domain).cname = some target ∧ sameName domain target = false ∧
      loopRule domain ancestors.tail = false := by
  simp only [newChild] at h
  split at h
  · cases h
  next hloops =>
    refine ⟨h, ?_⟩
    simpa [cnameLoops, h] using hloops

theorem ne_of_sameName_eq_false (h : sameName domain target = false) : target ≠ domain := by
  rintro rfl
  simp [sameName] at h

/-- The chain from a child, behind children of other names that follow their rules. -/
theorem length_cnameChildren_le (setup : CnameSetup) (hseen : ∀ a ∈ seen, a.rule.cname ≠ none)
    (hdistinct : ((request :: seen).map (fun a => a.domain)).Nodup)
    (hwithin : (request :: seen).map (fun a => a.domain) ⊆ setup.targets)
    (hnext : ∀ t, request.rule.cname = some t → t ≠ request.domain ∧ t ∈ setup.targets) :
    (cnameChildren setup.stages n request (seen ++ rest)).length + seen.length
      ≤ setup.targets.length := by
  have hroom := hdistinct.length_le_of_subset hwithin
  rw [length_map, length_cons] at hroom
  induction n generalizing request seen with
  | zero =>
    rw [cnameChildren, length_nil]
    omega
  | succ n ih =>
  rcases cnameChildren_succ setup.stages n request (seen ++ rest) with
    hnil | ⟨t, parent, ht, hparent, hdomain, hcons⟩
  · rw [hnil, length_nil]
    omega
  obtain ⟨hother, hmem⟩ := hnext t ht
  rw [hcons, length_cons]
  generalize hchild : newChild (setup.stages (seen ++ rest).length).conf t
    (parent :: (seen ++ rest)) = child
  cases hfollow : child.rule.cname with
  | none =>
    rw [cnameChildren_of_none hfollow, length_nil]
    omega
  | some t' =>
  have hname : child.domain = t := by rw [← hchild]; rfl
  obtain ⟨hrule, hself, hloop⟩ := newChild_follows (hchild ▸ hfollow)
  have hnew : ¬ ∃ a ∈ seen, a.domain <:+: t := fun h =>
    Bool.false_ne_true (hloop.symm.trans ((loopRule_append hseen).mpr (.inl h)))
  have hdistinct' : ((child :: parent :: seen).map (fun a => a.domain)).Nodup := by
    simp only [map_cons, hname, hdomain] at hdistinct ⊢
    refine nodup_cons.mpr ⟨fun h => ?_, hdistinct⟩
    rcases mem_cons.mp h with h | h
    · exact hother h
    · obtain ⟨a, ha, rfl⟩ := mem_map.mp h
      exact hnew ⟨a, ha, infix_rfl⟩
  have hwithin' : (child :: parent :: seen).map (fun a => a.domain) ⊆ setup.targets := by
    simp only [map_cons, hname, hdomain] at hwithin ⊢
    exact cons_subset.mpr ⟨hmem, hwithin⟩
  have hroom' := hdistinct'.length_le_of_subset hwithin'
  rw [length_map, length_cons] at hroom'
  have hrest := @ih child (parent :: seen)
    (forall_mem_cons.mpr ⟨by simp [hparent], hseen⟩) hdistinct' hwithin' ?_ hroom'
  · rw [cons_append, length_cons] at hrest
    omega
  intro t'' ht''
  cases hfollow.symm.trans ht''
  exact ⟨hname ▸ ne_of_sameName_eq_false hself, setup.within _ _ _ hrule⟩

/-- **Chains of CNAME rules end.** -/
theorem cname_chain_bounded (setup : CnameSetup) (k n : Nat) (name : Bytes) (loops : Bool)
    (ancestors : List CnameRequest) :
    (cnameChildren setup.stages n ⟨name, (setup.stages k).conf name, loops⟩ ancestors).length
      ≤ setup.targets.length + 1 := by
  cases n with
  | zero => exact Nat.zero_le _
  | succ n =>
  rcases cnameChildren_succ setup.stages n
    ⟨name, (setup.stages k).conf name, loops⟩ ancestors with
    hnil | ⟨t, parent, ht, -, -, hcons⟩
  · rw [hnil]
    exact Nat.zero_le _
  rw [hcons, length_cons]
  have hmem : t ∈ setup.targets := setup.within k name t ht
  have hle := @length_cnameChildren_le
    (newChild (setup.stages ancestors.length).conf t (parent :: ancestors)) []
    (parent :: ancestors) n setup (by simp) (by simp) (by simpa [newChild] using hmem) ?_
  · exact Nat.succ_le_succ hle
  intro t' ht'
  obtain ⟨hrule, hself, -⟩ := newChild_follows ht'
  exact ⟨ne_of_sameName_eq_false hself, setup.within _ _ _ hrule⟩

/-- The rules `a → b` and `b → a`. -/
def cycleSetup : CnameSetup where
  targets := [[97], [98]]
  stages _ := ⟨fun name => ⟨if name = [97] then some [98] else if name = [98] then some [97]
    else none, false, false, by simp⟩, true, false⟩
  within k name target h := by
    dsimp only at h
    split_ifs at h <;> simp_all

/-- The chain ends at the name that it comes back to. -/
theorem cname_chain_bounded_cycle :
    let children := cnameChildren cycleSetup.stages 9
      ⟨[97], (cycleSetup.stages 0).conf [97], false⟩ []
    children.map (fun a => a.domain) = [[98], [97]] ∧ children.length ≤ 3 :=
  ⟨by decide, cname_chain_bounded cycleSetup 0 9 [97] false []⟩

end Chains

section Followed

/-- The target of the rule of a name, unless it is to be ignored. -/
def ruleTarget (conf : CnameConf) (name : Bytes) : Option Bytes :=
  if (conf name).ignored then none else (conf name).cname

/-- The targets that follow from a name, at most `n`. -/
def followRules (conf : CnameConf) : Nat → Bytes → List Bytes
  | 0, _ => []
  | n + 1, name =>
    match ruleTarget conf name with
    | none => []
    | some target => target :: followRules conf n target

/-- The requests of a chain are in one group and get to their rules. -/
def oneGroup (conf : CnameConf) (_ : Nat) : CnameStage :=
  ⟨conf, true, false⟩

/-- Nothing stops a request with a rule: the name does not contain one that comes two
or more places before it, and the target is not one whose rule is to be ignored. -/
def Unhindered (conf : CnameConf) : Nat → Bytes → List Bytes → Prop
  | 0, _, _ => True
  | n + 1, name, before =>
    ∀ target, ruleTarget conf name = some target →
      (∀ a ∈ before.tail, ¬ a <:+: name) ∧
        ((conf name).anyIgnored = true ∨ (conf target).ignored = false) ∧
        Unhindered conf n target (name :: before)

variable {conf : CnameConf} {name target : Bytes} {request : CnameRequest}
variable {ancestors : List CnameRequest} {n : Nat}

theorem cnameChildren_of_ignored (h : request.rule.ignored = true) :
    cnameChildren (oneGroup conf) n request ancestors = [] := by
  cases n with
  | zero => rfl
  | succ n =>
    simp [cnameChildren, oneGroup, dnsServerProcessCnamePre, dnsServerProcessCname, h,
      request.rule.all h]

/-- A request that is not marked, whose rule leads to another name. -/
theorem cnameChildren_unmarked (htarget : ruleTarget conf name = some target)
    (hother : sameName name target = false) :
    ∃ parent : CnameRequest, parent.domain = name ∧ parent.rule.cname = some target ∧
      cnameChildren (oneGroup conf) (n + 1) ⟨name, conf name, false⟩ ancestors =
        if (conf name).anyIgnored = true ∨ (conf target).ignored = false then
          let child := newChild conf target (parent :: ancestors)
          child :: cnameChildren (oneGroup conf) n child (parent :: ancestors)
        else [] := by
  simp only [ruleTarget] at htarget
  split at htarget
  · cases htarget
  next hignored =>
    refine ⟨dnsServerProcessCnamePre conf false ⟨name, conf name, false⟩, (pre_cname _ _ _).1,
      (pre_cname _ _ _).2.2.trans htarget, ?_⟩
    cases hany : (conf name).anyIgnored <;> cases hnext : (conf target).ignored <;>
      simp [cnameChildren, oneGroup, dnsServerProcessCnamePre, dnsServerProcessCname, htarget, hany,
        hnext, hother, hignored]

theorem ruleTarget_eq_some_iff :
    ruleTarget conf name = some target ↔
      (conf name).ignored = false ∧ (conf name).cname = some target := by
  cases hignored : (conf name).ignored <;> simp [ruleTarget, hignored]

/-- A request for a name without a rule of its own has no child. -/
theorem cnameChildren_of_ruleTarget (h : ruleTarget conf name = none)
    (hignored : request.rule.ignored = (conf name).ignored)
    (hcname : (conf name).cname = none → request.rule.cname = none) :
    cnameChildren (oneGroup conf) n request ancestors = [] := by
  rw [ruleTarget] at h
  split at h
  next hyes => exact cnameChildren_of_ignored (hignored.trans hyes)
  next => exact cnameChildren_of_none (hcname h)

theorem followed_iff (hcalled : ∀ a ∈ ancestors, a.rule.cname ≠ none)
    (hfree : ((name :: followRules conf n name).map (List.map toLower)).Nodup) :
    (cnameChildren (oneGroup conf) n (newChild conf name ancestors) ancestors).map
        (fun a => a.domain) = followRules conf n name ↔
      Unhindered conf n name (ancestors.map fun a => a.domain) := by
  induction n generalizing name ancestors with
  | zero => simp [cnameChildren, followRules, Unhindered]
  | succ n ih =>
  cases htarget : ruleTarget conf name with
  | none =>
    rw [cnameChildren_of_ruleTarget htarget]
    · simp [followRules, Unhindered, htarget]
    · simp only [newChild]
      split <;> rfl
    · intro hnone
      simp [newChild, cnameLoops, hnone]
  | some target =>
  obtain ⟨-, hcname⟩ := ruleTarget_eq_some_iff.mp htarget
  simp only [followRules, htarget] at hfree ⊢
  obtain ⟨hne, hfree⟩ := nodup_cons.mp hfree
  have hother : sameName name target = false := by
    simp only [map_cons, mem_cons, not_or] at hne
    simpa [sameName] using hne.1
  have hloop : loopRule name ancestors.tail = true ↔
      ∃ a ∈ ancestors.tail, a.domain <:+: name := by
    rw [← append_nil ancestors.tail, loopRule_append fun a ha => hcalled a (mem_of_mem_tail ha)]
    simp [loopRule]
  have hbefore : (∀ a ∈ (ancestors.map fun a => a.domain).tail, ¬ a <:+: name) ↔
      loopRule name ancestors.tail = false := by
    rw [← Bool.not_eq_true, hloop, ← map_tail, forall_mem_map]
    simp
  simp only [Unhindered, htarget, Option.some.injEq, forall_eq', hbefore]
  cases hmarked : loopRule name ancestors.tail with
  | true =>
    rw [cnameChildren_of_none (by simp [newChild, cnameLoops, hcname, hmarked])]
    simp
  | false =>
  have hself : newChild conf name ancestors = ⟨name, conf name, false⟩ := by
    simp [newChild, cnameLoops, hcname, hother, hmarked]
  obtain ⟨parent, hdomain, hparent, heq⟩ :=
    @cnameChildren_unmarked conf name target ancestors n htarget hother
  rw [hself, heq]
  split
  next hgo =>
    have hrest := @ih target (parent :: ancestors)
      (forall_mem_cons.mpr ⟨by simp [hparent], hcalled⟩) hfree
    rw [map_cons, hdomain] at hrest
    simpa [hgo, newChild] using hrest
  next hstop => simp [hstop]

/--
A chain of rules that never comes back to a name is followed to its end exactly when
no name on it that has a rule contains a name from two or more places before it, and
no target is one whose own rule is to be ignored.
-/
theorem cname_rules_followed_iff (conf : CnameConf) (name : Bytes)
    (hfree : ∀ n, ((name :: followRules conf n name).map (List.map toLower)).Nodup) :
    (∀ n, (cnameChildren (oneGroup conf) n ⟨name, conf name, false⟩ []).map (fun a => a.domain) =
        followRules conf n name) ↔
      ∀ n, Unhindered conf n name [] := by
  refine forall_congr' fun n => ?_
  cases htarget : ruleTarget conf name with
  | none =>
    rw [cnameChildren_of_ruleTarget htarget rfl fun h => h]
    cases n <;> simp [followRules, Unhindered, htarget]
  | some target =>
  have hself : newChild conf name [] = ⟨name, conf name, false⟩ := by
    have hone := hfree 1
    simp only [followRules, htarget, map_cons, map_nil, nodup_cons, mem_singleton] at hone
    simp [newChild, cnameLoops, (ruleTarget_eq_some_iff.mp htarget).2, sameName, hone.1, loopRule]
  rw [← hself]
  exact followed_iff (by simp) (hfree n)

/-- The rules `a → b`, `b → xa` and `xa → c`. -/
def exampleRules : CnameConf := fun name =>
  ⟨if name = [97] then some [98] else if name = [98] then some [120, 97]
    else if name = [120, 97] then some [99] else none, false, false, by simp⟩

/-- From `b` both rules are followed. -/
theorem cname_rules_followed_twice :
    (cnameChildren (oneGroup exampleRules) 2 ⟨[98], exampleRules [98], false⟩ []).map
      (fun a => a.domain) = followRules exampleRules 2 [98] := by
  refine (cname_rules_followed_iff exampleRules [98] ?_).mpr ?_ 2
  · rintro (_ | _ | _ | n)
    · decide
    · decide
    all_goals exact (by decide : ([[98], [120, 97], [99]].map (List.map toLower)).Nodup)
  · rintro (_ | _ | _ | n) <;> simp [Unhindered, ruleTarget, exampleRules]

/-- The name `xa` contains `a`, and its rule is not followed. -/
theorem substring_stops_chain :
    followRules exampleRules 3 [97] = [[98], [120, 97], [99]] ∧
      (cnameChildren (oneGroup exampleRules) 3 ⟨[97], exampleRules [97], false⟩ []).map
        (fun a => a.domain) = [[98], [120, 97]] := by
  decide

end Followed

end SmartDns.Server
