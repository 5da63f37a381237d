import SmartDns.Http3.Codec

/-!
# The path and its parameters

`_http3_build_headers_payload` joins the path of a request and its parameters
to one string, and `_http_head_parse_params` takes that apart at the first `?`
and at every `=` and `&` that it reaches.  A string that is taken apart into a
path and parameters is at least as long as the one that is built from them.
-/

namespace SmartDns.Http3

open List

variable {params : List Pair} {target url : CStr}

/-- The path with its parameters. -/
def targetText (url : CStr) (params : List Pair) : Bytes :=
  url.bytes ++ paramsText 63 params

/-- The parameters as `_http_head_parse_params` cuts them out of the string. -/
def rawParams (params : List Pair) : List (Bytes × Bytes) :=
  params.map wire

/-- No character that would take the string apart elsewhere. -/
def PlainTarget (url : CStr) (params : List Pair) : Prop :=
  63 ∉ url.bytes ∧ ∀ param ∈ params, 61 ∉ param.1.bytes ∧ 38 ∉ param.2.bytes

theorem parseParamsLoop_name {name : Bytes} (hname : 61 ∉ name) (start rest : Bytes) :
    parseParamsLoop none start (name ++ 61 :: rest) =
      parseParamsLoop (some (start ++ name)) [] rest := by
  induction name generalizing start with
  | nil => simp [parseParamsLoop]
  | cons ch name ih =>
    rw [mem_cons, not_or] at hname
    rw [cons_append, parseParamsLoop, if_neg (Ne.symm hname.1), ih hname.2,
      append_assoc, singleton_append]

theorem parseParamsLoop_value {value : Bytes} (hvalue : 38 ∉ value) (field start rest : Bytes) :
    parseParamsLoop (some field) start (value ++ 38 :: rest) =
      (field, start ++ value) :: parseParamsLoop none [] rest := by
  induction value generalizing start with
  | nil => simp [parseParamsLoop]
  | cons ch value ih =>
    rw [mem_cons, not_or] at hvalue
    rw [cons_append, parseParamsLoop, if_neg (Ne.symm hvalue.1), ih hvalue.2,
      append_assoc, singleton_append]

theorem parseParamsLoop_last {value : Bytes} (hvalue : 38 ∉ value) (field start : Bytes) :
    parseParamsLoop (some field) start value = [(field, start ++ value)] := by
  induction value generalizing start with
  | nil => simp [parseParamsLoop]
  | cons ch value ih =>
    rw [mem_cons, not_or] at hvalue
    rw [parseParamsLoop, if_neg (Ne.symm hvalue.1), ih hvalue.2, append_assoc, singleton_append]

theorem parseParamsLoop_paramsText {mark : UInt8} (hne : params ≠ [])
    (hplain : ∀ param ∈ params, 61 ∉ param.1.bytes ∧ 38 ∉ param.2.bytes) :
    parseParamsLoop none [] (paramsText mark params).tail = rawParams params := by
  induction params generalizing mark with
  | nil => exact absurd rfl hne
  | cons param params ih =>
  obtain ⟨hname, hvalue⟩ := hplain param mem_cons_self
  simp only [paramsText, cons_append, tail_cons, append_assoc]
  rw [parseParamsLoop_name hname, nil_append]
  cases params with
  | nil =>
    rw [paramsText, append_nil, parseParamsLoop_last hvalue, nil_append]
    rfl
  | cons next params =>
    have hrest := @ih 38 (by simp) (fun p hp => hplain p (mem_cons_of_mem _ hp))
    simp only [paramsText, cons_append, tail_cons, append_assoc] at hrest ⊢
    rw [parseParamsLoop_value hvalue, hrest, nil_append]
    rfl

/-- What is cut out contains neither the character that ended it nor one that
the string did not have. -/
theorem parseParamsLoop_pieces {good : UInt8 → Prop} {field : Option Bytes} {start text : Bytes}
    (htext : ∀ b ∈ text, good b) (hstart : ∀ b ∈ start, good b)
    (hfield : ∀ name ∈ field, (∀ b ∈ name, good b) ∧ 61 ∉ name)
    (hdone : match field with | none => 61 ∉ start | some _ => 38 ∉ start) :
    ∀ param ∈ parseParamsLoop field start text,
      ((∀ b ∈ param.1, good b) ∧ 61 ∉ param.1) ∧ (∀ b ∈ param.2, good b) ∧ 38 ∉ param.2 := by
  induction text generalizing field start with
  | nil =>
    cases field with
    | none => simp [parseParamsLoop]
    | some name =>
      intro param hparam
      simp only [parseParamsLoop, mem_singleton] at hparam
      subst hparam
      exact ⟨hfield name rfl, hstart, hdone⟩
  | cons ch text ih =>
  have hch := htext ch mem_cons_self
  have htail := fun b hb => htext b (mem_cons_of_mem ch hb)
  have hmore : ∀ b ∈ start ++ [ch], good b := by
    intro b hb
    rcases mem_append.mp hb with hb | hb
    · exact hstart b hb
    · rw [mem_singleton.mp hb]
      exact hch
  cases field with
  | none =>
    rw [parseParamsLoop]
    split_ifs with h61
    · exact ih htail (by simp) (by simpa using ⟨hstart, hdone⟩) (by simp)
    · apply ih htail hmore (by simp)
      simp only [mem_append, mem_singleton, not_or]
      exact ⟨hdone, Ne.symm h61⟩
  | some name =>
  rw [parseParamsLoop]
  split_ifs with h38
  · intro param hparam
    rcases mem_cons.mp hparam with rfl | hparam
    · exact ⟨hfield name rfl, hstart, hdone⟩
    · exact ih htail (by simp) (by simp) (by simp) param hparam
  · apply ih htail hmore hfield
    simp only [mem_append, mem_singleton, not_or]
    exact ⟨hdone, Ne.symm h38⟩

/-- The text of parameters that are kept as bytes. -/
def rawText : List (Bytes × Bytes) → Bytes
  | [] => []
  | param :: params => 38 :: param.1 ++ (61 :: param.2) ++ rawText params

theorem rawText_rawParams (params : List Pair) :
    rawText (rawParams params) = paramsText 38 params := by
  induction params with
  | nil => rfl
  | cons param params ih =>
    have hmap : rawParams (param :: params) = wire param :: rawParams params := rfl
    rw [hmap, rawText, ih, paramsText]
    rfl

/-- The text of what is cut out of a string is not longer than the string, and
is the string when it is as long. -/
theorem parseParamsLoop_text (field : Option Bytes) (start text : Bytes) :
    (rawText (parseParamsLoop field start text)).length ≤
      (38 :: (match field with | none => start | some name => name ++ 61 :: start) ++ text).length ∧
    ((rawText (parseParamsLoop field start text)).length =
        (38 :: (match field with | none => start | some name => name ++ 61 :: start) ++
          text).length →
      rawText (parseParamsLoop field start text) =
        38 :: (match field with | none => start | some name => name ++ 61 :: start) ++ text) := by
  induction text generalizing field start with
  | nil =>
    cases field with
    | none | some => simp [parseParamsLoop, rawText]
  | cons ch text ih =>
  cases field with
  | none =>
    rw [parseParamsLoop]
    split_ifs with h61
    · subst h61
      simpa using ih (some start) []
    · simpa using ih none (start ++ [ch])
  | some name =>
  rw [parseParamsLoop]
  split_ifs with h38
  · subst h38
    have hrest := ih none []
    simp only [rawText, length_append, length_cons, cons_append,
      nil_append, append_assoc] at hrest ⊢
    constructor
    · omega
    · intro hlen
      rw [hrest.2 (by omega)]
  · simpa using ih (some name) (start ++ [ch])

theorem takeWhile_of_notMem {path : Bytes} (hpath : 63 ∉ path) (text : Bytes) :
    (path ++ 63 :: text).takeWhile (· != 63) = path ∧
      (path ++ 63 :: text).dropWhile (· != 63) = 63 :: text := by
  have hall : ∀ b ∈ path, (b != 63) = true := by
    intro b hb
    simp only [bne_iff_ne]
    rintro rfl
    exact hpath hb
  constructor
  · rw [takeWhile_append_of_pos hall]
    simp
  · rw [dropWhile_append_of_pos hall]
    simp

theorem ofBuffer_bytes_of_noNul {bytes : Bytes} (h : ∀ b ∈ bytes, b ≠ 0) :
    (CStr.ofBuffer bytes).bytes = bytes :=
  takeWhile_eq_self_iff.mpr (by simpa using h)

theorem httpHeadParseParams_of_notMem (h : 63 ∉ url.bytes) :
    httpHeadParseParams url = (url, []) := by
  have hdrop : url.bytes.dropWhile (· != 63) = [] := by
    apply dropWhile_eq_nil_iff.mpr
    intro b hb
    simp only [bne_iff_ne]
    rintro rfl
    exact h hb
  simp only [httpHeadParseParams, hdrop]

theorem httpHeadParseParams_split
    {path text : Bytes} (hpath : 63 ∉ path) (htarget : target.bytes = path ++ 63 :: text) :
    (httpHeadParseParams target).1.bytes = path ∧
      rawParams (httpHeadParseParams target).2 = parseParamsLoop none [] text ∧
      ∀ param ∈ parseParamsLoop none [] text, 61 ∉ param.1 ∧ 38 ∉ param.2 := by
  obtain ⟨htake, hdrop⟩ := takeWhile_of_notMem hpath text
  have hnoNul : ∀ b ∈ path ++ 63 :: text, b ≠ 0 := htarget ▸ target.noNul
  have hpieces := @parseParamsLoop_pieces (· ≠ 0) none [] text
    (fun b hb => hnoNul b (by simp [hb])) (by simp) (by simp) (by simp)
  have hparse : httpHeadParseParams target =
      (CStr.ofBuffer path, (parseParamsLoop none [] text).map fun param =>
        (CStr.ofBuffer param.1, CStr.ofBuffer param.2)) := by
    simp only [httpHeadParseParams, htarget, htake, hdrop]
  refine ⟨?_, ?_, fun param hparam => ⟨(hpieces param hparam).1.2, (hpieces param hparam).2.2⟩⟩
  · rw [hparse]
    exact ofBuffer_bytes_of_noNul (fun b hb => hnoNul b (mem_append_left _ hb))
  · rw [hparse, rawParams, map_map]
    conv_rhs => rw [← map_id (parseParamsLoop none [] text)]
    apply map_congr_left
    intro param hparam
    obtain ⟨⟨hname, -⟩, hvalue, -⟩ := hpieces param hparam
    simp only [Function.comp_apply, wire, ofBuffer_bytes_of_noNul hname,
      ofBuffer_bytes_of_noNul hvalue, id_eq]

theorem rawParams_injective : Function.Injective rawParams := by
  intro params params' h
  refine map_injective_iff.mpr ?_ h
  rintro ⟨name, value⟩ ⟨name', value'⟩ hwire
  simp only [wire, Prod.mk.injEq] at hwire
  exact Prod.ext (CStr.ext hwire.1) (CStr.ext hwire.2)

theorem paramsText_length (mark mark' : UInt8) (params : List Pair) :
    (paramsText mark params).length = (paramsText mark' params).length := by
  cases params with
  | nil => rfl
  | cons param params => simp [paramsText]

/-- A plain path with plain parameters is taken apart into what it was built
from. -/
theorem httpHeadParseParams_plain
    (hplain : PlainTarget url params) (htarget : target.bytes = targetText url params) :
    httpHeadParseParams target = (url, params) := by
  obtain ⟨hurl, hparams⟩ := hplain
  cases params with
  | nil =>
    have hsame : target = url := by
      apply CStr.ext
      rw [htarget, targetText, paramsText, append_nil]
    rw [hsame, httpHeadParseParams_of_notMem hurl]
  | cons param params =>
  have hmark : paramsText 63 (param :: params) =
      63 :: (paramsText 63 (param :: params)).tail := rfl
  rw [targetText, hmark] at htarget
  obtain ⟨hpath, hraw, -⟩ := httpHeadParseParams_split hurl htarget
  rw [parseParamsLoop_paramsText (by simp) hparams] at hraw
  exact Prod.ext (CStr.ext hpath) (rawParams_injective hraw)

/-- What a string is taken apart into is plain, its text is not longer than the
string, and is the string when it is as long. -/
theorem httpHeadParseParams_inv (h : httpHeadParseParams target = (url, params)) :
    PlainTarget url params ∧ (targetText url params).length ≤ target.bytes.length ∧
      ((targetText url params).length = target.bytes.length →
        target.bytes = targetText url params) := by
  by_cases hmem : 63 ∈ target.bytes
  · obtain ⟨path, text, htarget, hpath⟩ := eq_append_cons_of_mem hmem
    obtain ⟨hurl, hraw, hpieces⟩ := httpHeadParseParams_split hpath htarget
    rw [h] at hurl hraw
    simp only at hurl hraw
    have htext := parseParamsLoop_text none [] text
    rw [← hraw, rawText_rawParams] at htext
    obtain ⟨hle, heq⟩ := htext
    simp only [length_cons, length_append, length_nil] at hle heq
    have hlen := paramsText_length 63 38 params
    rw [targetText, hurl, htarget]
    simp only [length_append, length_cons]
    refine ⟨⟨hurl ▸ hpath, ?_⟩, by omega, ?_⟩
    · intro param hparam
      rw [← hraw] at hpieces
      exact hpieces (wire param) (mem_map_of_mem hparam)
    · intro hsame
      have h38 := heq (by omega)
      cases params with
      | nil => simp [paramsText] at h38
      | cons param params =>
        have htail : (paramsText 63 (param :: params)).tail = text := congrArg tail h38
        have hmark : paramsText 63 (param :: params) =
            63 :: (paramsText 63 (param :: params)).tail := rfl
        rw [hmark, htail]
  · rw [httpHeadParseParams_of_notMem hmem] at h
    cases h
    simpa [PlainTarget, targetText, paramsText] using hmem

end SmartDns.Http3
