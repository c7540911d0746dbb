import Jovian.Lib.Percent
import Jovian.Lib.Utf8
import Jovian.Wire.Authentication
import Mathlib.Data.List.DropRight

/-!
# Jovian — who may use the supervisor (`access::check`)

A request is allowed that no browser sent and that has the token: as the bearer token of its
`Authorization` header, or as the first `token` of its target's query, percent-decoded. The client's
WebSocket cannot send headers; it puts the token into its URL with `encodeURIComponent`, and the
decoder undoes that.

* **`access_decided`** — a request is allowed exactly if it is `Permitted`, the URL that the client
  builds is, and every text comes through `encodeURIComponent` and the decoder as it was.
-/

namespace Jovian.Access

open Percent (Bytes)

def ascii (text : String) : Bytes := text.toList.map fun c => c.toNat.toUInt8

def space : UInt8 := 32
def quote : UInt8 := 39
def question : UInt8 := 63
def hash : UInt8 := 35
def ampersand : UInt8 := 38
def equals : UInt8 := 61
def slash : UInt8 := 47
def colon : UInt8 := 58

/-! ## The supervisor -/

/-- Constant time, as `CRYPTO_memcmp` is. -/
def tokenMatches (presented token : Bytes) : Bool :=
  if token = [] ∨ presented.length ≠ token.length then false
  else (Wire.cryptoMemcmp (Wire.byteAt presented fun _ => 0) (Wire.byteAt token fun _ => 0)
    token.length).1 = 0

/-- `std::tolower` of a byte. -/
def tolower (b : UInt8) : UInt8 := if 65 ≤ b ∧ b ≤ 90 then b + 32 else b

def scheme : Bytes := ascii "bearer "

def bearerToken (authorization : Bytes) : Option Bytes :=
  if authorization.length ≤ scheme.length then none
  else if (authorization.take scheme.length).map tolower ≠ scheme then none
  else
    let value := ((authorization.drop scheme.length).dropWhile (· = space)).rdropWhile (· = space)
    if value = [] then none else some value

def hexValue (c : UInt8) : Option Nat :=
  if 48 ≤ c ∧ c ≤ 57 then some (c.toNat - 48)
  else if 97 ≤ c ∧ c ≤ 102 then some (c.toNat - 97 + 10)
  else if 65 ≤ c ∧ c ≤ 70 then some (c.toNat - 65 + 10)
  else none

/-- A byte that is not the beginning of an escape. -/
def literal (b : UInt8) : UInt8 := if b = Percent.plus then space else b

def percentDecode : Bytes → Bytes
  | b :: hi :: lo :: rest =>
    match hexValue hi, hexValue lo with
    | some h, some l =>
      if b = Percent.percent then (h * 16 + l).toUInt8 :: percentDecode rest
      else literal b :: percentDecode (hi :: lo :: rest)
    | _, _ => literal b :: percentDecode (hi :: lo :: rest)
  | b :: rest => literal b :: percentDecode rest
  | [] => []

/-- `find` of a byte: what is before it, and what is behind it where there is one. -/
def cut (c : UInt8) : Bytes → Bytes × Option Bytes
  | [] => ([], none)
  | b :: rest => if b = c then ([], some rest) else ((cut c rest).1.cons b, (cut c rest).2)

/-- The value of a parameter whose key is `name`. -/
def parameter (name pair : Bytes) : Option Bytes :=
  let (key, value) := cut equals pair
  if percentDecode key = name then some ((value.map percentDecode).getD []) else none

def queryParameter (uri name : Bytes) : Option Bytes :=
  (cut question uri).2.bind fun query =>
    ((cut hash query).1.splitOn ampersand).findSome? (parameter name)

/-- The URI without its query string. -/
def pathOf (uri : Bytes) : Bytes := uri.takeWhile fun b => b ≠ question ∧ b ≠ hash

def fromBrowser (origin : Bytes) : Bool := origin ≠ []

inductive Verdict where
  | allowed
  | fromBrowser
  | badToken
deriving DecidableEq

def check (origin authorization uri token : Bytes) : Verdict :=
  if fromBrowser origin then .fromBrowser
  else if token = [] then .allowed
  else if (bearerToken authorization).any (tokenMatches · token) then .allowed
  else if (queryParameter uri (ascii "token")).any (tokenMatches · token) then .allowed
  else .badToken

/-! ## The client -/

/-- What `encodeURIComponent` leaves as it is. -/
def isUnescaped (b : UInt8) : Bool :=
  (48 ≤ b ∧ b ≤ 57) ∨ (65 ≤ b ∧ b ≤ 90) ∨ (97 ≤ b ∧ b ≤ 122) ∨ b ∈ ascii "-_.!~*'()"

/-- `encodeURIComponent`, of a text without lone surrogates. -/
def encodeURIComponent (text : List Char) : Bytes :=
  text.flatMap fun c =>
    if c.toNat < 128 ∧ isUnescaped c.toNat.toUInt8 then [c.toNat.toUInt8]
    else (String.utf8EncodeChar c).flatMap Percent.encodeByte

def utf8 (text : List Char) : Bytes := text.flatMap String.utf8EncodeChar

/-- The supervisor's host and port, and a session of its: the id is a GUID. -/
structure SessionConnectionInfo where
  host : Bytes
  sessionId : Bytes
  token : List Char
  host_plain : ∀ b ∈ host, isUnescaped b = true ∨ b = colon
  sessionId_plain : ∀ b ∈ sessionId, isUnescaped b = true ∧ b ≠ quote

def SessionConnectionInfo.wsBase (info : SessionConnectionInfo) : Bytes := ascii "ws://" ++ info.host

def sessionSocketUrl (info : SessionConnectionInfo) : Bytes :=
  let base := info.wsBase ++ ascii "/sessions/" ++ info.sessionId ++ ascii "/messages"
  if info.token = [] then base else base ++ ascii "?token=" ++ encodeURIComponent info.token

/-- What a client's WebSocket asks the host of a `ws:` URL for: the path and the query, in which a
quote is escaped. -/
def requestTarget (url : Bytes) : Bytes :=
  ((url.drop (ascii "ws://").length).dropWhile (· ≠ slash)).flatMap fun b =>
    if b = quote then Percent.encodeByte b else [b]

/-! ## The property -/

/-- A bearer credential, whatever spaces are around it. -/
def IsBearer (authorization credential : Bytes) : Prop :=
  ∃ front before behind, authorization = front ++ before ++ credential ++ behind ∧
    front.map tolower = scheme ∧ (∀ b ∈ before, b = space) ∧ (∀ b ∈ behind, b = space) ∧
    credential ≠ [] ∧ credential.head? ≠ some space ∧ credential.getLast? ≠ some space

/-- The query of a request target. -/
def IsQuery (uri query : Bytes) : Prop :=
  ∃ path rest, uri = path ++ question :: (query ++ rest) ∧ question ∉ path ∧ hash ∉ query ∧
    (rest = [] ∨ rest.head? = some hash)

/-- What is before the first `=`, and what is behind it. -/
def IsPair (pair key value : Bytes) : Prop :=
  equals ∉ key ∧ (pair = key ++ equals :: value ∨ pair = key ∧ value = [])

/-- The first parameter of the query whose key is `name` has the value `value`. -/
def IsFirst (query name value : Bytes) : Prop :=
  ∃ before pair behind, query.splitOn ampersand = before ++ pair :: behind ∧
    (∀ p ∈ before, ∀ key v, IsPair p key v → ¬ Percent.Decodes key name) ∧
    ∃ key v, IsPair pair key v ∧ Percent.Decodes key name ∧ Percent.Decodes v value

/-- **Who may**: no browser, and who has the token where one is needed. -/
def Permitted (origin authorization uri token : Bytes) : Prop :=
  origin = [] ∧ (token = [] ∨ IsBearer authorization token ∨
    ∃ query, IsQuery uri query ∧ IsFirst query (ascii "token") token)

/-! ## The token -/

theorem tokenMatches_iff {presented token : Bytes} :
    tokenMatches presented token = true ↔ token ≠ [] ∧ presented = token := by
  unfold tokenMatches
  split
  · rename_i h
    refine ⟨fun hfalse => (by cases hfalse), fun ⟨hne, heq⟩ => ?_⟩
    rcases h with h | h
    · exact absurd h hne
    · exact absurd (congrArg List.length heq) h
  · rename_i h
    obtain ⟨hne, hlength⟩ := not_or.mp h
    have hlength : presented.length = token.length := not_not.mp hlength
    rw [decide_eq_true_iff, Wire.cryptoMemcmp_eq_zero_iff]
    constructor
    · intro hsame
      refine ⟨hne, List.ext_getElem hlength fun i hi hi' => ?_⟩
      have heq := hsame i hi'
      rwa [Wire.byteAt_of_lt hi, Wire.byteAt_of_lt hi'] at heq
    · rintro ⟨-, rfl⟩ i -
      rfl

/-! ## The bearer credential -/

/-- What is left of a text without the spaces around it. -/
theorem trim_eq_iff {text value : Bytes} (hne : value ≠ []) :
    (text.dropWhile (· = space)).rdropWhile (· = space) = value ↔
      ∃ before behind, text = before ++ value ++ behind ∧ (∀ b ∈ before, b = space) ∧
        (∀ b ∈ behind, b = space) ∧ value.head? ≠ some space ∧ value.getLast? ≠ some space := by
  constructor
  · rintro rfl
    set rest := text.dropWhile (· = space) with hrest
    refine ⟨text.takeWhile (· = space), rest.rtakeWhile (· = space), ?_, ?_, ?_, ?_, ?_⟩
    · rw [List.append_assoc, List.rdropWhile_append_rtakeWhile, List.takeWhile_append_dropWhile]
    · exact fun b hb => by simpa using List.mem_takeWhile_imp hb
    · exact fun b hb => by simpa using List.mem_rtakeWhile_imp hb
    · -- it begins where the text goes on behind its spaces
      intro hhead
      obtain ⟨tail, htail⟩ := List.rdropWhile_prefix (· = space) rest
      have hfirst : rest.head? = some space := by
        rw [← htail, List.head?_append, hhead]
        rfl
      have hnot := List.head?_dropWhile_not (p := (· = space)) text
      rw [← hrest, hfirst] at hnot
      simp at hnot
    · intro hlast
      have hnot := List.rdropWhile_last_not (· = space) rest hne
      rw [List.getLast?_eq_some_getLast hne] at hlast
      simp [Option.some.inj hlast] at hnot
  · rintro ⟨before, behind, rfl, hbefore, hbehind, hhead, hlast⟩
    have hdrop : (before ++ (value ++ behind)).dropWhile (· = space) = value ++ behind := by
      rw [List.dropWhile_append_of_pos (by simpa using hbefore)]
      cases value with
      | nil => exact absurd rfl hne
      | cons b value =>
        refine List.dropWhile_cons_of_neg ?_
        simpa using hhead
    rw [List.append_assoc, hdrop, List.rdropWhile, List.reverse_append,
      List.dropWhile_append_of_pos (by simpa using hbehind)]
    rw [← List.head?_reverse] at hlast
    cases hreverse : value.reverse with
    | nil => exact absurd (List.reverse_eq_nil_iff.mp hreverse) hne
    | cons b reverse =>
      rw [hreverse] at hlast
      rw [List.dropWhile_cons_of_neg (by simpa using hlast), ← hreverse, List.reverse_reverse]

theorem bearerToken_eq_some_iff {authorization credential : Bytes} :
    bearerToken authorization = some credential ↔ IsBearer authorization credential := by
  have hlength : scheme.length = 7 := by decide
  constructor
  · intro h
    simp only [bearerToken] at h
    split at h
    · cases h
    · split at h
      · cases h
      · rename_i hscheme
        split at h
        · cases h
        · rename_i hne
          rw [Option.some.inj h] at hne
          obtain ⟨before, behind, heq, hbefore, hbehind, hhead, hlast⟩ :=
            (trim_eq_iff hne).mp (Option.some.inj h)
          refine ⟨authorization.take scheme.length, before, behind, ?_, not_not.mp hscheme, hbefore,
            hbehind, hne, hhead, hlast⟩
          rw [List.append_assoc, List.append_assoc, ← List.append_assoc before, ← heq,
            List.take_append_drop]
  · rintro ⟨front, before, behind, rfl, hfront, hbefore, hbehind, hne, hhead, hlast⟩
    have hfront' : front.length = scheme.length := by rw [← hfront, List.length_map]
    have hassoc : front ++ before ++ credential ++ behind =
        front ++ (before ++ credential ++ behind) := by simp
    have htrim := (trim_eq_iff hne).mpr ⟨before, behind, rfl, hbefore, hbehind, hhead, hlast⟩
    have hpos := List.length_pos_iff.mpr hne
    simp only [bearerToken]
    rw [if_neg, hassoc, ← hfront', List.take_left, if_neg (not_not.mpr hfront), List.drop_left,
      htrim, if_neg hne]
    rw [hassoc, List.length_append, hfront']
    simp only [List.length_append]
    omega

/-! ## The query -/

theorem cut_eq_none {c : UInt8} {text front : Bytes} :
    cut c text = (front, none) ↔ text = front ∧ c ∉ text := by
  induction text generalizing front with
  | nil => simp [cut, eq_comm]
  | cons b text ih =>
    rw [cut]
    split
    · rename_i heq
      simp [heq]
    · rename_i hne
      constructor
      · intro h
        obtain ⟨hfront, hnone⟩ := Prod.mk.inj h
        obtain ⟨heq, hmem⟩ := ih.mp (Prod.ext rfl hnone)
        refine ⟨(congrArg (b :: ·) heq).trans hfront, fun hc => ?_⟩
        rcases List.mem_cons.mp hc with rfl | hc
        · exact hne rfl
        · exact hmem hc
      · rintro ⟨rfl, hmem⟩
        have hcut := ih.mpr ⟨rfl, fun hc => hmem (List.mem_cons_of_mem _ hc)⟩
        rw [hcut]

theorem cut_eq_some {c : UInt8} {text front behind : Bytes} :
    cut c text = (front, some behind) ↔ text = front ++ c :: behind ∧ c ∉ front := by
  induction text generalizing front with
  | nil => simp [cut]
  | cons b text ih =>
    rw [cut]
    split
    · rename_i heq
      subst heq
      constructor
      · intro h
        obtain ⟨rfl, hbehind⟩ := Prod.mk.inj h
        rw [Option.some.inj hbehind]
        exact ⟨rfl, List.not_mem_nil⟩
      · rintro ⟨h, hmem⟩
        cases front with
        | nil => rw [(List.cons.inj h).2]
        | cons b' front => exact absurd ((List.cons.inj h).1 ▸ List.mem_cons_self) hmem
    · rename_i hne
      constructor
      · intro h
        obtain ⟨rfl, hbehind⟩ := Prod.mk.inj h
        obtain ⟨heq, hmem⟩ := ih.mp (Prod.ext rfl hbehind)
        refine ⟨congrArg (b :: ·) heq, fun hc => ?_⟩
        rcases List.mem_cons.mp hc with rfl | hc
        · exact hne rfl
        · exact hmem hc
      · rintro ⟨h, hmem⟩
        cases front with
        | nil => exact absurd (List.cons.inj h).1 hne
        | cons b' front =>
          obtain ⟨rfl, htext⟩ := List.cons.inj h
          rw [ih.mpr ⟨htext, fun hc => hmem (List.mem_cons_of_mem _ hc)⟩]

/-- What is before the first `c` of a text, and that it is. -/
theorem cut_fst {c : UInt8} {text front : Bytes} (h : (cut c text).1 = front) :
    c ∉ front ∧ ∃ rest, text = front ++ rest ∧ (rest = [] ∨ rest.head? = some c) := by
  cases hcut : (cut c text).2 with
  | none =>
    obtain ⟨rfl, hmem⟩ := cut_eq_none.mp (Prod.ext h hcut)
    exact ⟨hmem, [], (List.append_nil _).symm, .inl rfl⟩
  | some behind =>
    obtain ⟨rfl, hmem⟩ := cut_eq_some.mp (Prod.ext h hcut)
    exact ⟨hmem, c :: behind, rfl, .inr rfl⟩

theorem fst_cut {c : UInt8} {front rest : Bytes} (hmem : c ∉ front)
    (hrest : rest = [] ∨ rest.head? = some c) : (cut c (front ++ rest)).1 = front := by
  cases rest with
  | nil =>
    rw [List.append_nil, cut_eq_none.mpr ⟨rfl, hmem⟩]
  | cons b rest =>
    obtain rfl : b = c := by simpa using hrest
    rw [cut_eq_some.mpr ⟨rfl, hmem⟩]

theorem hexValue_eq : hexValue = Percent.digit? := rfl

/-- **What the decoder makes of a text is what it means.** -/
theorem percentDecode_decodes (text : Bytes) : Percent.Decodes text (percentDecode text) := by
  have hother : ∀ {b : UInt8} {rest : Bytes}, (b = Percent.percent → Percent.escapes rest = none) →
      Percent.Decodes rest (percentDecode rest) →
      Percent.Decodes (b :: rest) (literal b :: percentDecode rest) := by
    intro b rest hescapes hrest
    by_cases hplus : b = Percent.plus
    · subst hplus
      exact .plus hrest
    · rw [literal, if_neg hplus]
      by_cases hpercent : b = Percent.percent
      · rw [hpercent]
        exact .percent (hescapes hpercent) hrest
      · exact .plain hpercent hplus hrest
  induction text using percentDecode.induct with
  | case1 hi lo rest h l hlo hhi ih =>
    rw [percentDecode, hhi, hlo]
    dsimp only
    rw [if_pos rfl]
    refine .escape ?_ ih
    rw [hexValue_eq] at hhi hlo
    rw [Percent.escapes, hhi, hlo]
    rfl
  | case2 b hi lo rest h l hlo hhi hpercent ih =>
    rw [percentDecode, hhi, hlo]
    dsimp only
    rw [if_neg hpercent]
    exact hother (fun h => absurd h hpercent) ih
  | case3 b hi lo rest hnone ih =>
    have hdecode : percentDecode (b :: hi :: lo :: rest) =
        literal b :: percentDecode (hi :: lo :: rest) := by
      rw [percentDecode]
      split
      · rename_i hhi hlo
        exact absurd hlo (hnone _ _ hhi)
      · rfl
    rw [hdecode]
    refine hother (fun _ => ?_) ih
    rw [Percent.escapes]
    split
    · rename_i hhi hlo
      exact absurd hlo (hnone _ _ hhi)
    · rfl
  | case4 b rest hshort ih =>
    rw [percentDecode]
    · refine hother (fun _ => ?_) ih
      rw [Percent.escapes]
      intro hi lo rest' h
      exact hshort hi lo rest' (by rw [h])
    · exact hshort
  | case5 => exact .nil

theorem decodes_iff {text out : Bytes} : Percent.Decodes text out ↔ percentDecode text = out := by
  constructor
  · exact (percentDecode_decodes text).unique
  · rintro rfl
    exact percentDecode_decodes text

theorem isPair_iff {pair key value : Bytes} :
    IsPair pair key value ↔ (cut equals pair).1 = key ∧ (cut equals pair).2.getD [] = value := by
  constructor
  · rintro ⟨hmem, rfl | ⟨rfl, rfl⟩⟩
    · rw [cut_eq_some.mpr ⟨rfl, hmem⟩]
      exact ⟨rfl, rfl⟩
    · rw [cut_eq_none.mpr ⟨rfl, hmem⟩]
      exact ⟨rfl, rfl⟩
  · rintro ⟨hkey, hvalue⟩
    cases hcut : (cut equals pair).2 with
    | none =>
      obtain ⟨heq, hmem⟩ := cut_eq_none.mp (Prod.ext hkey hcut)
      rw [hcut] at hvalue
      exact ⟨heq ▸ hmem, .inr ⟨heq, hvalue.symm⟩⟩
    | some behind =>
      obtain ⟨heq, hmem⟩ := cut_eq_some.mp (Prod.ext hkey hcut)
      rw [hcut] at hvalue
      exact ⟨hmem, .inl (heq.trans (by rw [← hvalue]; rfl))⟩

theorem parameter_eq_some {name pair value : Bytes} : parameter name pair = some value ↔
    ∃ key v, IsPair pair key v ∧ Percent.Decodes key name ∧ Percent.Decodes v value := by
  have hmap : ∀ v : Option Bytes, (v.map percentDecode).getD [] = percentDecode (v.getD []) := by
    intro v
    cases v <;> rfl
  rw [parameter]
  dsimp only
  rw [hmap]
  constructor
  · intro h
    split at h
    · rename_i hkey
      exact ⟨_, _, isPair_iff.mpr ⟨rfl, rfl⟩, decodes_iff.mpr hkey,
        decodes_iff.mpr (Option.some.inj h)⟩
    · cases h
  · rintro ⟨key, v, hpair, hkey, hvalue⟩
    obtain ⟨rfl, rfl⟩ := isPair_iff.mp hpair
    rw [if_pos (decodes_iff.mp hkey), decodes_iff.mp hvalue]

theorem parameter_eq_none {name pair : Bytes} : parameter name pair = none ↔
    ∀ key v, IsPair pair key v → ¬ Percent.Decodes key name := by
  constructor
  · intro h key v hpair hkey
    have hsome := parameter_eq_some.mpr ⟨key, v, hpair, hkey, percentDecode_decodes v⟩
    cases h.symm.trans hsome
  · intro h
    rw [parameter]
    dsimp only
    rw [if_neg fun hkey => h _ _ (isPair_iff.mpr ⟨rfl, rfl⟩) (decodes_iff.mpr hkey)]

/-- **The parameter that is looked for**: the first of that key. -/
theorem queryParameter_eq_some_iff {uri name value : Bytes} :
    queryParameter uri name = some value ↔ ∃ query, IsQuery uri query ∧ IsFirst query name value := by
  rw [queryParameter, Option.bind_eq_some_iff]
  constructor
  · rintro ⟨behind, hbehind, hfind⟩
    obtain ⟨heq, hpath⟩ := cut_eq_some.mp (Prod.ext rfl hbehind)
    obtain ⟨hquery, rest, hrest, hhash⟩ := @cut_fst hash behind _ rfl
    obtain ⟨before, pair, after, hsplit, hpair, hbefore⟩ := List.findSome?_eq_some_iff.mp hfind
    refine ⟨_, ⟨_, rest, ?_, hpath, hquery, hhash⟩, before, pair, after, hsplit, ?_, ?_⟩
    · rw [← hrest]
      exact heq
    · exact fun p hp => parameter_eq_none.mp (hbefore p hp)
    · exact parameter_eq_some.mp hpair
  · rintro ⟨query, ⟨path, rest, rfl, hpath, hquery, hhash⟩, before, pair, after, hsplit, hbefore,
      hpair⟩
    refine ⟨query ++ rest, by rw [cut_eq_some.mpr ⟨rfl, hpath⟩], ?_⟩
    rw [fst_cut hquery hhash]
    refine List.findSome?_eq_some_iff.mpr ⟨before, pair, after, hsplit, ?_, ?_⟩
    · exact parameter_eq_some.mpr hpair
    · exact fun p hp => parameter_eq_none.mpr (hbefore p hp)

/-! ## The decision -/

theorem check_allowed_iff {origin authorization uri token : Bytes} :
    check origin authorization uri token = .allowed ↔ Permitted origin authorization uri token := by
  have hbearer : (bearerToken authorization).any (tokenMatches · token) = true ↔
      token ≠ [] ∧ IsBearer authorization token := by
    rw [Option.any_eq_true]
    constructor
    · rintro ⟨presented, hsome, hmatches⟩
      obtain ⟨hne, rfl⟩ := tokenMatches_iff.mp hmatches
      exact ⟨hne, bearerToken_eq_some_iff.mp hsome⟩
    · rintro ⟨hne, hbearer⟩
      exact ⟨token, bearerToken_eq_some_iff.mpr hbearer, tokenMatches_iff.mpr ⟨hne, rfl⟩⟩
  have hquery : (queryParameter uri (ascii "token")).any (tokenMatches · token) = true ↔
      token ≠ [] ∧ ∃ query, IsQuery uri query ∧ IsFirst query (ascii "token") token := by
    rw [Option.any_eq_true]
    constructor
    · rintro ⟨presented, hsome, hmatches⟩
      obtain ⟨hne, rfl⟩ := tokenMatches_iff.mp hmatches
      exact ⟨hne, queryParameter_eq_some_iff.mp hsome⟩
    · rintro ⟨hne, hfirst⟩
      exact ⟨token, queryParameter_eq_some_iff.mpr hfirst, tokenMatches_iff.mpr ⟨hne, rfl⟩⟩
  rw [check, Permitted]
  by_cases horigin : origin = []
  · rw [if_neg (by simp [fromBrowser, horigin])]
    by_cases htoken : token = []
    · simp [horigin, htoken]
    · rw [if_neg htoken]
      by_cases hb : IsBearer authorization token
      · rw [if_pos (hbearer.mpr ⟨htoken, hb⟩)]
        simp [horigin, hb]
      · rw [if_neg fun h => hb (hbearer.mp h).2]
        by_cases hq : ∃ query, IsQuery uri query ∧ IsFirst query (ascii "token") token
        · rw [if_pos (hquery.mpr ⟨htoken, hq⟩)]
          simp [horigin, hq]
        · rw [if_neg fun h => hq (hquery.mp h).2]
          simp [htoken, hb, hq]
  · rw [if_pos (by simp [fromBrowser, horigin])]
    simp [horigin]

/-! ## The client's URL -/

theorem isUnescaped_lt {b : UInt8} (h : isUnescaped b = true) : b.toNat < 128 := by
  have hmarks : ∀ b ∈ ascii "-_.!~*'()", b.toNat < 128 := by decide +kernel
  rw [isUnescaped, decide_eq_true_iff] at h
  rcases h with h | h | h | h
  · exact Nat.lt_of_le_of_lt (UInt8.le_iff_toNat_le.mp h.2) (by decide)
  · exact Nat.lt_of_le_of_lt (UInt8.le_iff_toNat_le.mp h.2) (by decide)
  · exact Nat.lt_of_le_of_lt (UInt8.le_iff_toNat_le.mp h.2) (by decide)
  · exact hmarks b h

/-- `encodeURIComponent` escapes the bytes that are not unescaped. -/
theorem encodeURIComponent_eq (text : List Char) :
    encodeURIComponent text = Percent.encode isUnescaped (utf8 text) := by
  rw [encodeURIComponent, utf8, Percent.encode, List.flatMap_assoc]
  congr 1
  funext c
  by_cases hascii : c.toNat < 128
  · rw [Utf8.utf8EncodeChar_ascii hascii]
    simp [hascii]
  · rw [if_neg fun h => hascii h.1]
    refine List.flatMap_congr fun b hb => (if_neg fun hb' => ?_).symm
    exact absurd (isUnescaped_lt hb') (Nat.not_lt.mpr (Utf8.le_of_mem_utf8EncodeChar (not_lt.mp hascii) b hb))

/-- **Decoding undoes `encodeURIComponent`.** -/
theorem percentDecode_encodeURIComponent (text : List Char) :
    percentDecode (encodeURIComponent text) = utf8 text := by
  rw [encodeURIComponent_eq]
  exact decodes_iff.mp (Percent.decodes_encode (by decide) (by decide) _)

/-- In a request's target the quotes are escaped too. -/
theorem flatMap_quote (bytes : Bytes) :
    ((Percent.encode isUnescaped bytes).flatMap fun b =>
      if b = quote then Percent.encodeByte b else [b]) =
    Percent.encode (fun b => isUnescaped b && decide (b ≠ quote)) bytes := by
  have hdigits : ∀ n : Fin 16, Percent.upperDigit n ≠ quote := by decide
  rw [Percent.encode, Percent.encode, List.flatMap_assoc]
  refine List.flatMap_congr fun b _ => ?_
  by_cases hkeep : isUnescaped b
  · by_cases hquote : b = quote
    · rw [if_pos hkeep, if_neg (by simp [hquote])]
      simp [hquote]
    · rw [if_pos hkeep, if_pos (by simp [hkeep, hquote])]
      simp [hquote]
  · have hlt : b.toNat < 256 := b.toNat_lt
    have hhi := hdigits ⟨b.toNat / 16, by omega⟩
    have hlo := hdigits ⟨b.toNat % 16, by omega⟩
    have hpercent : Percent.percent ≠ quote := by decide
    rw [if_neg hkeep, if_neg (by simp [hkeep])]
    simp [Percent.encodeByte, hhi, hlo, hpercent]

/-- What is encoded is unescaped, or belongs to an escape. -/
theorem mem_encode {keep : UInt8 → Bool} (hkeep : ∀ b, keep b = true → isUnescaped b = true)
    {bytes : Bytes} {b : UInt8} (h : b ∈ Percent.encode keep bytes) :
    isUnescaped b = true ∨ b = Percent.percent := by
  have hdigits : ∀ n : Fin 16, isUnescaped (Percent.upperDigit n) = true := by decide
  obtain ⟨b', -, hb⟩ := List.mem_flatMap.mp h
  have hlt : b'.toNat < 256 := b'.toNat_lt
  split at hb
  · rename_i hkept
    rw [List.mem_singleton.mp hb]
    exact .inl (hkeep _ hkept)
  · simp only [Percent.encodeByte, List.mem_cons, List.not_mem_nil, or_false] at hb
    rcases hb with rfl | rfl | rfl
    · exact .inr rfl
    · exact .inl (hdigits ⟨b'.toNat / 16, by omega⟩)
    · exact .inl (hdigits ⟨b'.toNat % 16, by omega⟩)

/-- A path, in which nothing is escaped. -/
def socketPath (info : SessionConnectionInfo) : Bytes :=
  ascii "/sessions/" ++ info.sessionId ++ ascii "/messages"

theorem flatMap_socketPath (info : SessionConnectionInfo) (rest : Bytes) :
    (socketPath info ++ rest).flatMap (fun b => if b = quote then Percent.encodeByte b else [b]) =
      socketPath info ++
        rest.flatMap fun b => if b = quote then Percent.encodeByte b else [b] := by
  rw [List.flatMap_append]
  congr 1
  have hquote : ∀ b ∈ socketPath info, b ≠ quote := by
    intro b hb
    rw [socketPath, List.mem_append, List.mem_append] at hb
    rcases hb with (hb | hb) | hb
    · revert b
      decide +kernel
    · exact (info.sessionId_plain b hb).2
    · revert b
      decide +kernel
  generalize socketPath info = path at hquote
  induction path with
  | nil => rfl
  | cons b path ih =>
    obtain ⟨hb, hpath⟩ := List.forall_mem_cons.mp hquote
    rw [List.flatMap_cons, ih hpath, if_neg hb]
    rfl

/-- The path and the query of a URL are asked of its host. -/
theorem requestTarget_url (info : SessionConnectionInfo) (rest : Bytes) :
    requestTarget (info.wsBase ++ (socketPath info ++ rest)) =
      socketPath info ++
        rest.flatMap fun b => if b = quote then Percent.encodeByte b else [b] := by
  have hhost : ∀ b ∈ info.host, decide (b ≠ slash) = true := by
    intro b hb
    rw [decide_eq_true_iff]
    rintro rfl
    exact absurd (info.host_plain slash hb) (by decide)
  rw [requestTarget, SessionConnectionInfo.wsBase, List.append_assoc, List.drop_left,
    List.dropWhile_append_of_pos hhost, ← flatMap_socketPath]
  rfl

theorem queryParameter_token {path : Bytes} (hpath : question ∉ path) {value : Bytes}
    (hvalue : ∀ b ∈ value, isUnescaped b = true ∨ b = Percent.percent) :
    queryParameter (path ++ question :: (ascii "token=" ++ value)) (ascii "token") =
      some (percentDecode value) := by
  have hmem : ∀ c : UInt8, isUnescaped c = false → c ≠ Percent.percent → c ∉ ascii "token=" →
      c ∉ ascii "token=" ++ value := by
    intro c hc hpercent htoken h
    rcases List.mem_append.mp h with h | h
    · exact htoken h
    · rcases hvalue c h with h | h
      · rw [hc] at h
        cases h
      · exact hpercent h
  have hhash := hmem hash (by decide) (by decide) (by decide)
  have hampersand := hmem ampersand (by decide) (by decide) (by decide)
  have hpair : parameter (ascii "token") (ascii "token=" ++ value) = some (percentDecode value) := by
    have hcut : cut equals (ascii "token=" ++ value) = (ascii "token", some value) :=
      cut_eq_some.mpr ⟨rfl, by decide⟩
    rw [parameter, hcut]
    dsimp only
    rw [if_pos (by decide)]
    rfl
  have hquery : (cut hash (ascii "token=" ++ value)).1 = ascii "token=" ++ value := by
    rw [cut_eq_none.mpr ⟨rfl, hhash⟩]
  rw [queryParameter, cut_eq_some.mpr ⟨rfl, hpath⟩]
  show ((cut hash (ascii "token=" ++ value)).1.splitOn ampersand).findSome? (parameter _) = _
  rw [hquery, List.splitOn_eq_singleton hampersand, List.findSome?_singleton, hpair]

/-- **The client gets in.** -/
theorem check_sessionSocketUrl (info : SessionConnectionInfo) :
    check [] [] (requestTarget (sessionSocketUrl info)) (utf8 info.token) = .allowed := by
  have hquestion : question ∉ socketPath info := by
    rw [socketPath, List.mem_append, List.mem_append]
    rintro ((h | h) | h)
    · exact absurd h (by decide)
    · exact absurd (info.sessionId_plain question h).1 (by decide)
    · exact absurd h (by decide)
  rw [check, if_neg (by decide)]
  by_cases htoken : info.token = []
  · rw [if_pos (by rw [htoken]; rfl)]
  · have hne : utf8 info.token ≠ [] := by
      obtain ⟨c, token, hcons⟩ := List.exists_cons_of_ne_nil htoken
      rw [hcons, utf8, List.flatMap_cons]
      exact fun h => String.utf8EncodeChar_ne_nil (List.append_eq_nil_iff.mp h).1
    have hurl : sessionSocketUrl info = info.wsBase ++ (socketPath info ++
        (question :: (ascii "token=" ++ encodeURIComponent info.token))) := by
      rw [sessionSocketUrl, if_neg htoken, socketPath]
      simp only [List.append_assoc]
      rfl
    have htarget : requestTarget (sessionSocketUrl info) = socketPath info ++ question ::
        (ascii "token=" ++
          Percent.encode (fun b => isUnescaped b && decide (b ≠ quote)) (utf8 info.token)) := by
      rw [hurl, requestTarget_url, ← flatMap_quote, ← encodeURIComponent_eq, List.flatMap_cons,
        List.flatMap_append]
      rfl
    have hdecode : percentDecode (Percent.encode (fun b => isUnescaped b && decide (b ≠ quote))
        (utf8 info.token)) = utf8 info.token :=
      decodes_iff.mp (Percent.decodes_encode (by decide) (by decide) _)
    have hbearer : bearerToken [] = none := by decide
    rw [if_neg hne, hbearer, Option.any_none, if_neg Bool.false_ne_true, if_pos]
    rw [htarget, queryParameter_token hquestion fun b hb => mem_encode (fun b hb => ?_) hb, hdecode]
    · exact tokenMatches_iff.mpr ⟨hne, rfl⟩
    · exact (Bool.and_eq_true_iff.mp hb).1

/-- **Who may use the supervisor**, and that the client may. -/
theorem access_decided :
    (∀ origin authorization uri token : Bytes,
      check origin authorization uri token = .allowed ↔
        Permitted origin authorization uri token) ∧
    (∀ info : SessionConnectionInfo,
      check [] [] (requestTarget (sessionSocketUrl info)) (utf8 info.token) = .allowed) ∧
    ∀ text : List Char, percentDecode (encodeURIComponent text) = utf8 text :=
  ⟨fun _ _ _ _ => check_allowed_iff, check_sessionSocketUrl, percentDecode_encodeURIComponent⟩

end Jovian.Access
