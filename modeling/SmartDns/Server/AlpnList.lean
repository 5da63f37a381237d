import SmartDns.Lib.Bytes

/-!
# Lists of ALPN names

`encode_alpn_protos` writes the names of a comma-separated list, each behind one byte for its
length.  The last name is cut to the room that is left, and names that are too long for their
byte are written too.
-/

namespace SmartDns.Server

open List

/-- A name behind its length. -/
def wire (name : Bytes) : Bytes :=
  UInt8.ofNat name.length :: name

/-- `proto_len`: the distance to the comma, or `strnlen` of the last name. -/
def protoLen (dataMax len : Nat) (name : Bytes) (more : List Bytes) : Nat :=
  if more = [] then min name.length (dataMax - len - 1) else name.length

/-- The loop of `encode_alpn_protos` over the items of the list.  A length that an `int`
cannot hold has no defined result. -/
def alpnLoop (dataMax : Nat) : List Bytes → Bytes → Option Bytes
  | [], data => some data
  | name :: more, data =>
    let n := protoLen dataMax data.length name more
    if name = [] ∧ more = [] ∨ dataMax ≤ data.length + 1 then some data
    else if n = 0 then alpnLoop dataMax more data
    else if 2 ^ 31 ≤ data.length + 1 + n then none
    else if dataMax < data.length + 1 + n then some data
    else alpnLoop dataMax more (data ++ UInt8.ofNat n :: name.take n)

def encodeAlpnProtos (alpn : Bytes) (dataMax : Int32) : Option Bytes :=
  if alpn = [] ∨ dataMax ≤ 0 then some []
  else alpnLoop dataMax.toInt.toNat (alpn.splitOn 44) []

def names (items : List Bytes) : List Bytes :=
  items.filter (· ≠ [])

/-- The result adds whole names to `data`, up to some name; all of them if they fit. -/
def Delivers (dataMax : Nat) (items : List Bytes) (data : Bytes) (result : Option Bytes) : Prop :=
  ∃ done, result = some (data ++ done.flatMap wire) ∧
    (data ++ done.flatMap wire).length ≤ dataMax ∧ (∀ name ∈ done, name.length ≤ 255) ∧
    done <+: names items ∧ ((∀ name ∈ names items, name.length ≤ 255) →
      (data ++ (names items).flatMap wire).length ≤ dataMax → done = names items)

def wireLen (names : List Bytes) : Nat :=
  (names.flatMap wire).length

/-- The names in front of a comma that fit into what is left behind `len` bytes have at most
255 bytes, and the last name is as short and fits if two bytes are left for it.  The sum that
is compared with the size of the buffer is an `int`. -/
structure WholeNames (dataMax len : Nat) (items : List Bytes) : Prop where
  before : ∀ front name, front ++ [name] <+: names items.dropLast →
    len + wireLen front + 1 < dataMax →
      len + wireLen front + 1 + name.length < 2 ^ 31 ∧
        (len + wireLen front + 1 + name.length ≤ dataMax → name.length ≤ 255)
  last : ∀ name ∈ items.getLast?, len + wireLen (names items.dropLast) + 1 < dataMax →
    len + wireLen (names items.dropLast) + 1 + name.length ≤ dataMax ∧ name.length ≤ 255

section Loop

variable {dataMax : Nat} {name data bs : Bytes} {more items : List Bytes}

theorem alpnLoop_extends (h : alpnLoop dataMax items data = some bs) : data <+: bs := by
  induction items generalizing data with
  | nil =>
    cases h
    exact prefix_rfl
  | cons name more ih =>
  rw [alpnLoop] at h
  split_ifs at h
  · cases h
    exact prefix_rfl
  · exact ih h
  · cases h
    exact prefix_rfl
  · exact (prefix_append _ _).trans (ih h)

/-- Where the loop stops, no name is left that would fit. -/
theorem delivers_stop (hlen : data.length ≤ dataMax)
    (hstop : (data ++ (names items).flatMap wire).length ≤ dataMax → names items = []) :
    Delivers dataMax items data (some data) :=
  ⟨[], by simp, by simpa, by simp, nil_prefix, fun _ hfits => (hstop hfits).symm⟩

theorem names_cons (hname : name ≠ []) (more : List Bytes) :
    names (name :: more) = name :: names more := by
  simp [names, hname]

theorem length_append_wire (data name : Bytes) :
    (data ++ wire name).length = data.length + 1 + name.length := by
  simp only [wire, length_append, length_cons]
  omega

theorem fits_cons (hfits : (data ++ (name :: more).flatMap wire).length ≤ dataMax) :
    data.length + 1 + name.length ≤ dataMax := by
  rw [flatMap_cons, ← append_assoc, length_append, length_append_wire] at hfits
  omega

theorem names_eq_nil (hfull : dataMax ≤ data.length + 1)
    (hfits : (data ++ (names items).flatMap wire).length ≤ dataMax) : names items = [] := by
  cases hnames : names items with
  | nil => rfl
  | cons first rest =>
    have hmem : first ∈ names items := by simp [hnames]
    have hpos : 0 < first.length := length_pos_of_ne_nil (by simpa using (mem_filter.mp hmem).2)
    have hroom := fits_cons (hnames ▸ hfits)
    omega

/-- A name that is written is whole, and the rest is delivered behind it. -/
theorem delivers_written (hname : name ≠ []) {n : Nat} (hle : n ≤ name.length) :
    Delivers dataMax (name :: more) data
        (alpnLoop dataMax more (data ++ UInt8.ofNat n :: name.take n)) ↔
      n = name.length ∧ n ≤ 255 ∧ Delivers dataMax more (data ++ wire name)
        (alpnLoop dataMax more (data ++ wire name)) := by
  simp only [Delivers, names_cons hname]
  constructor
  · rintro ⟨done, hresult, hlen, hshort, hfront, hall⟩
    have hext := (prefix_append_right_inj _).mp (alpnLoop_extends hresult)
    cases done with
    | nil => simp at hext
    | cons first done =>
    obtain ⟨rfl, hdone⟩ := cons_prefix_cons.mp hfront
    obtain ⟨hfirst, hrest⟩ := forall_mem_cons.mp hshort
    -- the two length bytes agree, so nothing has been cut off
    have hbyte := congrArg UInt8.toNat (cons_prefix_cons.mp hext).1
    rw [UInt8.toNat_ofNat', UInt8.toNat_ofNat'] at hbyte
    have hn : n = first.length := by omega
    rw [flatMap_cons, ← append_assoc] at hresult hlen
    rw [hn, take_length] at hresult
    refine ⟨hn, hn ▸ hfirst, done, hresult, hlen, hrest, hdone, fun hshorts hfits => ?_⟩
    refine (cons.inj (hall (forall_mem_cons.mpr ⟨hfirst, hshorts⟩) ?_)).2
    rwa [flatMap_cons, ← append_assoc]
  · rintro ⟨rfl, hfirst, done, hresult, hlen, hshort, hdone, hall⟩
    rw [take_length]
    refine ⟨name :: done, ?_, ?_, forall_mem_cons.mpr ⟨hfirst, hshort⟩,
      cons_prefix_cons.mpr ⟨rfl, hdone⟩, fun hshorts hfits => ?_⟩
    · rwa [flatMap_cons, ← append_assoc]
    · rwa [flatMap_cons, ← append_assoc]
    · rw [flatMap_cons, ← append_assoc] at hfits
      rw [hall (forall_mem_cons.mp hshorts).2 hfits]

theorem wireLen_cons (name : Bytes) (more : List Bytes) :
    wireLen (name :: more) = 1 + name.length + wireLen more := by
  simp [wireLen, wire]
  omega

/-- Nothing is asked of the names once the buffer is full. -/
theorem wholeNames_full {len : Nat} (hfull : dataMax ≤ len + 1) : WholeNames dataMax len items :=
  ⟨fun _ _ _ _ => by omega, fun _ _ _ => by omega⟩

theorem wholeNames_singleton {len : Nat} :
    WholeNames dataMax len [name] ↔
      (len + 1 < dataMax → len + 1 + name.length ≤ dataMax ∧ name.length ≤ 255) := by
  refine ⟨fun h => h.last name (by simp),
    fun h => ⟨fun front first hfront => ?_, fun last hlast => ?_⟩⟩
  · simp [names] at hfront
  · obtain rfl : name = last := by simpa using hlast
    exact h

theorem wholeNames_skip {len : Nat} (hmore : more ≠ []) :
    WholeNames dataMax len ([] :: more) ↔ WholeNames dataMax len more := by
  obtain ⟨next, rest, rfl⟩ := exists_cons_of_ne_nil hmore
  have hnames : names ([] :: next :: rest).dropLast = names (next :: rest).dropLast := by
    simp [names]
  constructor
  · rintro ⟨hbefore, hlast⟩
    rw [hnames] at hbefore hlast
    exact ⟨hbefore, fun name hname => hlast name (by simpa using hname)⟩
  · rintro ⟨hbefore, hlast⟩
    refine ⟨hnames ▸ hbefore, fun name hname => ?_⟩
    rw [hnames]
    exact hlast name (by simpa using hname)

theorem wholeNames_cons {len : Nat} (hname : name ≠ []) (hmore : more ≠ [])
    (hroom : len + 1 < dataMax) :
    WholeNames dataMax len (name :: more) ↔
      len + 1 + name.length < 2 ^ 31 ∧ (len + 1 + name.length ≤ dataMax → name.length ≤ 255) ∧
        WholeNames dataMax (len + 1 + name.length) more := by
  obtain ⟨next, rest, rfl⟩ := exists_cons_of_ne_nil hmore
  have hnames : names (name :: next :: rest).dropLast = name :: names (next :: rest).dropLast := by
    simp [names, hname]
  have hlen : ∀ front, len + wireLen (name :: front) = len + 1 + name.length + wireLen front :=
    fun front => by rw [wireLen_cons]; omega
  constructor
  · rintro ⟨hbefore, hlast⟩
    rw [hnames] at hbefore hlast
    have hfirst := hbefore [] name (by simp) hroom
    refine ⟨hfirst.1, hfirst.2, fun front first hfront => ?_, fun last hmem => ?_⟩
    · rw [← hlen]
      exact hbefore (name :: front) first (by simpa using hfront)
    · rw [← hlen]
      exact hlast last (by simpa using hmem)
  · rintro ⟨hint, hshort, hbefore, hlast⟩
    refine ⟨fun front first hfront => ?_, fun last hmem => ?_⟩
    · rw [hnames] at hfront
      cases front with
      | nil =>
        obtain rfl : first = name := by simpa using hfront
        exact fun _ => ⟨hint, hshort⟩
      | cons second front =>
        obtain ⟨rfl, hrest⟩ := cons_prefix_cons.mp hfront
        rw [hlen]
        exact hbefore front first hrest
    · rw [hnames, hlen]
      exact hlast last (by simpa using hmem)

theorem delivers_iff (hmax : dataMax < 2 ^ 31) (hlen : data.length ≤ dataMax) :
    Delivers dataMax items data (alpnLoop dataMax items data) ↔
      WholeNames dataMax data.length items := by
  induction items generalizing data with
  | nil => exact iff_of_true (delivers_stop hlen fun _ => rfl) ⟨by simp [names], by simp⟩
  | cons name more ih =>
  rw [alpnLoop]
  by_cases hfull : dataMax ≤ data.length + 1
  · rw [if_pos (Or.inr hfull)]
    exact iff_of_true (delivers_stop hlen (names_eq_nil hfull)) (wholeNames_full hfull)
  have hwritten (n : Nat) (hn : n ≤ name.length) (hpos : 0 < n) :=
    @delivers_written dataMax name data more (ne_nil_of_length_pos (by omega)) n hn
  by_cases hmore : more = []
  · -- the last name is cut to the room
    subst hmore
    rw [wholeNames_singleton, protoLen, if_pos rfl]
    by_cases hname : name = []
    · subst hname
      rw [if_pos (Or.inl ⟨rfl, rfl⟩)]
      refine iff_of_true (delivers_stop hlen fun _ => rfl) fun _ => ?_
      simp
      omega
    have hpos := length_pos_of_ne_nil hname
    rw [if_neg (by simp [hname, hfull]), if_neg (by omega), if_neg (by omega), if_neg (by omega),
      hwritten _ (by omega) (by omega)]
    constructor
    · rintro ⟨hn, hshort, -⟩ -
      omega
    · intro h
      obtain ⟨hfits, hshort⟩ := h (by omega)
      have hlen' : (data ++ wire name).length ≤ dataMax := by rwa [length_append_wire]
      exact ⟨by omega, by omega, delivers_stop hlen' fun _ => rfl⟩
  rw [if_neg (by simp [hmore, hfull]), protoLen, if_neg hmore]
  by_cases hname : name = []
  · subst hname
    rw [if_pos length_nil, wholeNames_skip hmore, ← ih hlen]
    simp [Delivers, names]
  have hpos := length_pos_of_ne_nil hname
  rw [if_neg (by omega), wholeNames_cons hname hmore (by omega)]
  split_ifs with hover hbreak
  · exact iff_of_false (by simp [Delivers]) fun h => absurd h.1 (by omega)
  · refine iff_of_true (delivers_stop hlen fun hfits => ?_)
      ⟨by omega, fun _ => by omega, wholeNames_full (by omega)⟩
    rw [names_cons hname] at hfits
    exact absurd (fits_cons hfits) (by omega)
  · rw [hwritten _ le_rfl hpos, ih (by rw [length_append_wire]; omega), length_append_wire]
    refine ⟨fun h => ⟨by omega, fun _ => h.2.1, h.2.2⟩, fun h => ⟨rfl, h.2.1 (by omega), h.2.2⟩⟩

end Loop

/-- **The list is encoded as whole names, all of them if they fit, exactly when the names that
fit in front of a comma have at most 255 bytes and so has the last one, which fits if two bytes
are left for it.** -/
theorem alpn_encoded_iff (alpn : Bytes) (dataMax : Int32) :
    Delivers dataMax.toInt.toNat (alpn.splitOn 44) [] (encodeAlpnProtos alpn dataMax) ↔
      WholeNames dataMax.toInt.toNat 0 (alpn.splitOn 44) := by
  have hmax : dataMax.toInt.toNat < 2 ^ 31 := by
    have := dataMax.toInt_lt
    omega
  have hloop := @delivers_iff dataMax.toInt.toNat [] (alpn.splitOn 44) hmax (Nat.zero_le _)
  rw [encodeAlpnProtos]
  split_ifs with hnone
  · have hsome : alpnLoop dataMax.toInt.toNat (alpn.splitOn 44) [] = some [] := by
      rcases hnone with rfl | hzero
      · rfl
      · rw [Int.toNat_of_nonpos (Int32.le_iff_toInt_le.mp hzero)]
        cases alpn.splitOn 44 with
        | nil => rfl
        | cons name more => simp [alpnLoop]
    rwa [hsome] at hloop
  · exact hloop

/-- The last name is cut to the one byte that is left for it. -/
theorem last_name_cut : ¬Delivers 5 ((ascii "h2,http/1.1").splitOn 44) []
    (encodeAlpnProtos (ascii "h2,http/1.1") 5) := by
  have hitems : (ascii "h2,http/1.1").splitOn 44 = [ascii "h2", ascii "http/1.1"] := by decide
  rw [encodeAlpnProtos, if_neg (by decide), hitems]
  refine mt (delivers_iff (by decide) (Nat.zero_le _)).mp fun h => ?_
  have hlast := h.last (ascii "http/1.1") rfl
  revert hlast
  decide

end SmartDns.Server
