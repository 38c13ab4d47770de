import Mathlib.Data.List.Induction
import GameServer.Http.ParserReuse

/-!
# What `ParseQuery` reads

A query string is a row of segments between `&`, and a segment with `=` names a parameter: its key
stands before the first `=` and its value after it. `ParseQuery` goes over the bytes once. A second
`=` of a segment replaces the key, so that the text around the *last* `=` is stored, and the key is
kept from one segment to the next, so that a segment without `=` is stored too: under the key before
it, which is there already, or under the empty key if it is the first segment.

* `lookup_queryLoop_emplaced` says what the loop stores, segment by segment (`emplaced`).
* `parseQuery_reads_iff` says for which texts this is the map that the segments describe.
-/

namespace GameServer.Http

/-- The texts between the `&`. -/
def segments (str : Bytes) : List Bytes := str.splitOn 0x26

/-- The texts between the `=` of a segment. -/
def pieces (segment : Bytes) : List Bytes := segment.splitOn 0x3d

/-- The parameter that a segment names. -/
def parameter (segment : Bytes) : Option (Bytes × Bytes) :=
  if 0x3d ∈ segment then
    some (HttpParser.trimSpace (segment.takeWhile (· != 0x3d)),
      HttpParser.trimSpace ((segment.dropWhile (· != 0x3d)).drop 1))
  else none

/-- The parameters of a query string; the first one with a key counts. -/
def parameters (str : Bytes) : List (Bytes × Bytes) := (segments str).filterMap parameter

/-- The texts around the last `=`, trimmed; without an `=` the key is the one given. -/
def aroundLast (key : Bytes) : List Bytes → Bytes × Bytes
  | [] => (key, [])
  | [piece] => (key, HttpParser.trimSpace piece)
  | piece :: pieces => aroundLast (HttpParser.trimSpace piece) pieces

/-- What the pass stores for each segment: the key goes on from one to the next. -/
def emplaced (key : Bytes) : List Bytes → List (Bytes × Bytes)
  | [] => []
  | segment :: rest =>
    aroundLast key (pieces segment) :: emplaced (aroundLast key (pieces segment)).1 rest

/-! ## Segments -/

section Segments

variable {key p rest segment : Bytes}

theorem mem_dropWhile_sp {c : UInt8} (hc : c ≠ sp) {s : Bytes} :
    c ∈ s.dropWhile (· == sp) ↔ c ∈ s := by
  induction s with
  | nil => rfl
  | cons x s ih =>
    rw [List.dropWhile_cons]
    by_cases hx : x = sp
    · subst hx
      simp [ih, hc]
    · simp [hx]

/-- Trimming takes spaces only. -/
theorem mem_trimSpace {c : UInt8} (hc : c ≠ sp) {s : Bytes} :
    c ∈ HttpParser.trimSpace s ↔ c ∈ s := by
  simp [HttpParser.trimSpace, mem_dropWhile_sp hc]

theorem takeWhile_append_eq (hp : 0x3d ∉ p) :
    (p ++ 0x3d :: rest).takeWhile (· != 0x3d) = p := by
  rw [List.takeWhile_append_of_pos]
  · simp
  · intro c hc
    simp only [bne_iff_ne]
    rintro rfl
    exact hp hc

theorem dropWhile_append_eq (hp : 0x3d ∉ p) :
    (p ++ 0x3d :: rest).dropWhile (· != 0x3d) = 0x3d :: rest := by
  rw [List.dropWhile_append_of_pos]
  · simp
  · intro c hc
    simp only [bne_iff_ne]
    rintro rfl
    exact hp hc

/-- A segment with `=`, cut at the first one. -/
theorem exists_first_eq (h : 0x3d ∈ segment) :
    ∃ p rest, segment = p ++ 0x3d :: rest ∧ 0x3d ∉ p := by
  obtain ⟨p, rest, hsegment, hp⟩ := List.eq_append_cons_of_mem h
  exact ⟨p, rest, hsegment, hp⟩

theorem parameter_eq (hp : 0x3d ∉ p) : parameter (p ++ 0x3d :: rest) =
    some (HttpParser.trimSpace p, HttpParser.trimSpace rest) := by
  unfold parameter
  rw [if_pos (by simp), takeWhile_append_eq hp, dropWhile_append_eq hp]
  rfl

theorem count_eq (hp : 0x3d ∉ p) : 1 < (p ++ 0x3d :: rest).count 0x3d ↔ 0x3d ∈ rest := by
  rw [List.count_append, List.count_cons_self, List.count_eq_zero.2 hp, ← List.count_pos_iff]
  omega

theorem pieces_of_not_mem (h : 0x3d ∉ segment) : pieces segment = [segment] :=
  List.splitOn_eq_singleton h

theorem pieces_append (hp : 0x3d ∉ p) : pieces (p ++ 0x3d :: rest) = p :: pieces rest :=
  List.splitOn_append_cons_self_of_not_mem hp rest

theorem aroundLast_of_not_mem (h : 0x3d ∉ segment) :
    aroundLast key (pieces segment) = (key, HttpParser.trimSpace segment) := by
  rw [pieces_of_not_mem h]
  rfl

theorem aroundLast_append (hp : 0x3d ∉ p) : aroundLast key (pieces (p ++ 0x3d :: rest)) =
    aroundLast (HttpParser.trimSpace p) (pieces rest) := by
  rw [pieces_append hp]
  cases hpieces : pieces rest with
  | nil => exact absurd hpieces (List.splitOn_ne_nil _ _)
  | cons q qs => rfl

/-- The key that was there does not matter to a segment with `=`. -/
theorem aroundLast_of_mem (key : Bytes) (h : 0x3d ∈ segment) :
    aroundLast key (pieces segment) = aroundLast [] (pieces segment) := by
  obtain ⟨p, rest, rfl, hp⟩ := exists_first_eq h
  rw [aroundLast_append hp, aroundLast_append hp]

/-- What is stored as a value has no `=`. -/
theorem eq_not_mem_aroundLast : 0x3d ∉ (aroundLast key (pieces segment)).2 := by
  induction hlen : segment.length using Nat.strongRecOn generalizing segment key with
  | ind n ih =>
    by_cases h : 0x3d ∈ segment
    · obtain ⟨p, rest, rfl, hp⟩ := exists_first_eq h
      rw [aroundLast_append hp]
      refine ih rest.length ?_ rfl
      simp only [List.length_append, List.length_cons] at hlen
      omega
    · rw [aroundLast_of_not_mem h, mem_trimSpace (by decide)]
      exact h

end Segments

/-! ## The pass -/

/-- `emplace` of each pair in order. -/
def emplaceAll (queries pairs : List (Bytes × Bytes)) : List (Bytes × Bytes) :=
  pairs.foldl (fun queries pair => HttpParser.emplace queries pair.1 pair.2) queries

theorem segments_cons (chr : UInt8) (str : Bytes) : segments (chr :: str) =
    if chr = 0x26 then [] :: segments str else (segments str).modifyHead (chr :: ·) := by
  rw [segments, List.splitOn_cons_eq_if_modifyHead]
  simp only [beq_iff_eq]
  rfl

theorem exists_segments (str : Bytes) : ∃ segment rest, segments str = segment :: rest :=
  List.exists_cons_of_ne_nil (List.splitOn_ne_nil _ _)

/-- **The loop, segment by segment.** `piece` is what it read of the first one so far. -/
theorem queryLoop_eq_emplaceAll (queries : List (Bytes × Bytes)) {key piece str segment : Bytes}
    {rest : List Bytes} (hpiece : 0x3d ∉ piece) (hstr : segments str = segment :: rest) :
    HttpParser.queryLoop queries key piece true str =
      emplaceAll queries (emplaced key ((piece ++ segment) :: rest)) := by
  induction str generalizing queries key piece segment rest with
  | nil =>
    obtain ⟨rfl, rfl⟩ : [] = segment ∧ [] = rest := List.cons.inj hstr
    rw [List.append_nil, emplaced, aroundLast_of_not_mem hpiece]
    by_cases hnil : piece = []
    · subst hnil
      rfl
    · simp [HttpParser.queryLoop, hnil, emplaceAll, emplaced]
  | cons chr str ih =>
    obtain ⟨segment', rest', hstr'⟩ := exists_segments str
    rw [segments_cons, hstr'] at hstr
    rw [HttpParser.queryLoop]
    by_cases heq : chr = 0x3d
    · -- the key is what was read of the segment, and a new piece begins
      subst heq
      obtain ⟨rfl, rfl⟩ : 0x3d :: segment' = segment ∧ rest' = rest := List.cons.inj hstr
      rw [if_pos (by rfl), ih queries List.not_mem_nil hstr', emplaced, emplaced,
        aroundLast_append hpiece]
      rfl
    · rw [if_neg (by simpa using heq)]
      by_cases hamp : chr = 0x26
      · subst hamp
        obtain ⟨rfl, rfl⟩ : [] = segment ∧ segment' :: rest' = rest := List.cons.inj hstr
        have hsplit : emplaced key (piece :: segment' :: rest') =
            (key, HttpParser.trimSpace piece) :: emplaced key (segment' :: rest') := by
          rw [emplaced, aroundLast_of_not_mem hpiece]
        rw [if_pos (by rfl), ih _ List.not_mem_nil hstr', List.append_nil, hsplit]
        rfl
      · rw [if_neg hamp] at hstr
        obtain ⟨rfl, rfl⟩ : chr :: segment' = segment ∧ rest' = rest := List.cons.inj hstr
        rw [if_neg (by simpa using hamp), ih queries _ hstr', List.append_assoc]
        · rfl
        · simp [hpiece, Ne.symm heq]

/-- Before the first `=` or `&` nothing is stored. -/
theorem queryLoop_uncut (queries : List (Bytes × Bytes)) (key piece str : Bytes) :
    HttpParser.queryLoop queries key piece false str =
      if 0x3d ∈ str ∨ 0x26 ∈ str then HttpParser.queryLoop queries key piece true str
      else queries := by
  induction str generalizing piece with
  | nil => simp [HttpParser.queryLoop]
  | cons chr str ih =>
    by_cases heq : chr = 0x3d
    · simp [HttpParser.queryLoop, heq]
    · by_cases hamp : chr = 0x26
      · simp [HttpParser.queryLoop, hamp]
      · simp [HttpParser.queryLoop, heq, hamp, ih, Ne.symm heq, Ne.symm hamp]

theorem lookup_emplaceAll (queries pairs : List (Bytes × Bytes)) (k : Bytes) :
    (emplaceAll queries pairs).lookup k = (queries.lookup k).or (pairs.lookup k) := by
  induction pairs generalizing queries with
  | nil => exact Option.or_none.symm
  | cons pair pairs ih =>
    have hcons : emplaceAll queries (pair :: pairs) =
        emplaceAll (HttpParser.emplace queries pair.1 pair.2) pairs := rfl
    rw [hcons, ih, HttpParser.lookup_emplace, Option.or_assoc, ← List.lookup_append]
    rfl

/-- The pairs that the pass over a text stores. -/
def stored (str : Bytes) : List (Bytes × Bytes) :=
  if 0x3d ∈ str ∨ 0x26 ∈ str then emplaced [] (segments str) else []

/-- **What is stored.** The first pair with a key counts. -/
theorem lookup_parseQuery (p : HttpParser) (str k : Bytes) :
    (({ p with queries := [] } : HttpParser).parseQuery str).queries.lookup k =
      (stored str).lookup k := by
  obtain ⟨segment, rest, hstr⟩ := exists_segments str
  have hloop : (HttpParser.queryLoop [] [] [] false str).lookup k = (stored str).lookup k := by
    rw [queryLoop_uncut, stored]
    split
    · rw [queryLoop_eq_emplaceAll [] List.not_mem_nil hstr, lookup_emplaceAll, hstr]
      rfl
    · rfl
  rw [← hloop, HttpParser.parseQuery]
  split
  · next hempty =>
    rw [List.isEmpty_iff.1 hempty]
    rfl
  · rfl

/-! ## Where the pass reads the segments -/

/-- The texts that are read as their segments say.

* `first`: if the first of several segments has no `=`, the parameters give its text to the empty
  key.
* `repeated`: the key of a segment with a second `=` is one of an earlier segment.
* `stray`: what stands before its last `=` was the key of an earlier call, or the parameters give
  the text after its last `=` to it. -/
structure ReadAsSegments (str : Bytes) : Prop where
  first : ∀ segment rest, segments str = segment :: rest → rest ≠ [] → 0x3d ∉ segment →
    (parameters str).lookup [] = some (HttpParser.trimSpace segment)
  repeated : ∀ before segment after, segments str = before ++ segment :: after →
    1 < segment.count 0x3d →
      ∃ earlier ∈ before.filterMap parameter,
        earlier.1 = HttpParser.trimSpace (segment.takeWhile (· != 0x3d))
  stray : ∀ before segment after, segments str = before ++ segment :: after →
    1 < segment.count 0x3d →
      (∃ earlier ∈ before, (before.head? = some earlier ∨ 0x3d ∈ earlier) ∧
        (aroundLast [] (pieces earlier)).1 = (aroundLast [] (pieces segment)).1) ∨
      (parameters str).lookup (aroundLast [] (pieces segment)).1 =
        some (aroundLast [] (pieces segment)).2

/-- The key before each call is the one of the call before it. -/
theorem emplaced_append (key : Bytes) (before : List Bytes) (segment : Bytes) (after : List Bytes) :
    ∃ key' later, emplaced key (before ++ segment :: after) =
        emplaced key before ++ aroundLast key' (pieces segment) :: later ∧
      (before = [] ∧ key' = key ∨ ∃ pair ∈ emplaced key before, pair.1 = key') := by
  induction before generalizing key with
  | nil => exact ⟨key, _, rfl, .inl ⟨rfl, rfl⟩⟩
  | cons first before ih =>
    obtain ⟨key', later, heq, hkey⟩ := ih (aroundLast key (pieces first)).1
    refine ⟨key', later, ?_, .inr ?_⟩
    · rw [List.cons_append, emplaced, heq]
      rfl
    · rcases hkey with ⟨rfl, rfl⟩ | ⟨pair, hpair, hfst⟩
      · exact ⟨_, List.mem_cons_self, rfl⟩
      · exact ⟨pair, List.mem_cons_of_mem _ hpair, hfst⟩

/-- The call at a position of the pass and the segment it is made for. -/
theorem emplaced_eq_append {key : Bytes} {segs : List Bytes} {l₁ l₂ : List (Bytes × Bytes)}
    {pair : Bytes × Bytes} (h : emplaced key segs = l₁ ++ pair :: l₂) :
    ∃ before segment after key', segs = before ++ segment :: after ∧ emplaced key before = l₁ ∧
      pair = aroundLast key' (pieces segment) ∧
      (before = [] ∧ key' = key ∨ ∃ pair ∈ emplaced key before, pair.1 = key') := by
  induction segs generalizing key l₁ with
  | nil => simp [emplaced] at h
  | cons segment segs ih =>
    cases l₁ with
    | nil =>
      rw [emplaced, List.nil_append] at h
      exact ⟨[], segment, segs, key, rfl, rfl, (List.cons.inj h).1.symm, .inl ⟨rfl, rfl⟩⟩
    | cons first l₁ =>
      rw [emplaced, List.cons_append] at h
      obtain ⟨rfl, hrest⟩ := List.cons.inj h
      obtain ⟨before, segment', after, key', rfl, hbefore, hpair, hkey⟩ := ih hrest
      refine ⟨segment :: before, segment', after, key', rfl, ?_, hpair, .inr ?_⟩
      · rw [emplaced, hbefore]
      · rcases hkey with ⟨rfl, rfl⟩ | ⟨earlier, hearlier, hfst⟩
        · exact ⟨_, List.mem_cons_self, rfl⟩
        · exact ⟨earlier, List.mem_cons_of_mem _ hearlier, hfst⟩

/-- The keys of the calls. -/
theorem mem_keys_emplaced {key k : Bytes} {segs : List Bytes} :
    (∃ pair ∈ emplaced key segs, pair.1 = k) ↔
      (∃ segment ∈ segs, 0x3d ∈ segment ∧ (aroundLast [] (pieces segment)).1 = k) ∨
        (∃ segment, segs.head? = some segment ∧ 0x3d ∉ segment ∧ key = k) := by
  induction segs generalizing key with
  | nil => simp [emplaced]
  | cons segment segs ih =>
    have hcons : (∃ pair ∈ emplaced key (segment :: segs), pair.1 = k) ↔
        (aroundLast key (pieces segment)).1 = k ∨
          ∃ pair ∈ emplaced (aroundLast key (pieces segment)).1 segs, pair.1 = k := by
      simp [emplaced]
    rw [hcons, ih]
    by_cases hmem : 0x3d ∈ segment
    · rw [aroundLast_of_mem _ hmem]
      grind
    · rw [aroundLast_of_not_mem hmem]
      grind

section Reads

variable {str : Bytes}

theorem segments_of_not_mem (h : 0x26 ∉ str) : segments str = [str] :=
  List.splitOn_eq_singleton h

/-- A text with a `&` or an `=` is not one segment without `=`. -/
theorem ne_nil_of_cut (hcut : 0x3d ∈ str ∨ 0x26 ∈ str) {segment : Bytes} {rest : List Bytes}
    (hstr : segments str = segment :: rest) (hsegment : 0x3d ∉ segment) : rest ≠ [] := by
  rintro rfl
  by_cases hamp : 0x26 ∈ str
  · obtain ⟨a, b, rfl⟩ := List.append_of_mem hamp
    rw [segments, List.splitOn_append_cons_self] at hstr
    have hlen := congrArg List.length hstr
    have ha := List.length_pos_iff.2 (List.splitOn_ne_nil (0x26 : UInt8) a)
    have hb := List.length_pos_iff.2 (List.splitOn_ne_nil (0x26 : UInt8) b)
    simp only [List.length_append, List.length_singleton] at hlen
    omega
  · rw [segments_of_not_mem hamp] at hstr
    obtain ⟨rfl, -⟩ := List.cons.inj hstr
    exact hsegment (hcut.resolve_right hamp)

theorem cut_of_mem {before after : List Bytes} {segment : Bytes}
    (hstr : segments str = before ++ segment :: after) (hsegment : 0x3d ∈ segment) :
    0x3d ∈ str ∨ 0x26 ∈ str := by
  by_cases hamp : 0x26 ∈ str
  · exact .inr hamp
  · rw [segments_of_not_mem hamp] at hstr
    have hmem : segment ∈ [str] := by simp [hstr]
    exact .inl (List.mem_singleton.1 hmem ▸ hsegment)

theorem ne_of_lookup {pairs : List (Bytes × Bytes)} {k : Bytes} (h : ∀ q ∈ pairs, k != q.1)
    (hmem : ∃ q ∈ pairs, q.1 = k) : False := by
  obtain ⟨q, hq, rfl⟩ := hmem
  simpa using h q hq

/-- A segment whose key no earlier one has gives its value. -/
theorem lookup_parameters_of_new {before after : List Bytes} {p rest : Bytes} (hp : 0x3d ∉ p)
    (hstr : segments str = before ++ (p ++ 0x3d :: rest) :: after)
    (hnew : ¬∃ q ∈ before.filterMap parameter, q.1 = HttpParser.trimSpace p) :
    (parameters str).lookup (HttpParser.trimSpace p) = some (HttpParser.trimSpace rest) := by
  refine List.lookup_eq_some_iff.2
    ⟨before.filterMap parameter, after.filterMap parameter, ?_, ?_⟩
  · rw [parameters, hstr, List.filterMap_append, List.filterMap_cons, parameter_eq hp]
  · intro q hq
    rw [bne_iff_ne]
    intro hkey
    exact hnew ⟨q, hq, hkey.symm⟩

/-- The parameters have no keys that the calls do not have. -/
theorem ReadAsSegments.keys (h : ReadAsSegments str) {before after : List Bytes}
    (hstr : segments str = before ++ after) :
    ∀ q ∈ before.filterMap parameter, ∃ pair ∈ emplaced [] before, pair.1 = q.1 := by
  induction before using List.reverseRecOn generalizing after with
  | nil => simp
  | append_singleton before segment ih =>
    rw [List.append_assoc, List.singleton_append] at hstr
    have hbefore : ∀ q ∈ before.filterMap parameter,
        ∃ pair ∈ emplaced [] (before ++ [segment]), pair.1 = q.1 := by
      intro q hq
      obtain ⟨pair, hpair, hfst⟩ := ih hstr q hq
      obtain ⟨key', later, heq, -⟩ := emplaced_append [] before segment []
      exact ⟨pair, heq ▸ List.mem_append_left _ hpair, hfst⟩
    intro q hq
    rw [List.filterMap_append, List.mem_append] at hq
    rcases hq with hq | hq
    · exact hbefore q hq
    · obtain ⟨segment', hmem, hparameter⟩ := List.mem_filterMap.1 hq
      obtain rfl := List.mem_singleton.1 hmem
      have heq : 0x3d ∈ segment' := by
        by_contra hnot
        simp [parameter, hnot] at hparameter
      obtain ⟨p, rest, rfl, hp⟩ := exists_first_eq heq
      rw [parameter_eq hp, Option.some.injEq] at hparameter
      subst hparameter
      by_cases hrest : 0x3d ∈ rest
      · -- its key is one of the parameters before it
        obtain ⟨earlier, hearlier, hkey⟩ := h.repeated _ _ _ hstr ((count_eq hp).2 hrest)
        rw [takeWhile_append_eq hp] at hkey
        exact hkey ▸ hbefore earlier hearlier
      · refine mem_keys_emplaced.2 (.inl ⟨_, List.mem_append_right _ List.mem_cons_self, heq, ?_⟩)
        rw [aroundLast_append hp, aroundLast_of_not_mem hrest]

/-- A call that is the first one with its key stores what the parameters say. -/
theorem ReadAsSegments.lookup_parameters (h : ReadAsSegments str) (hcut : 0x3d ∈ str ∨ 0x26 ∈ str)
    {k v : Bytes} (hstored : (emplaced [] (segments str)).lookup k = some v) :
    (parameters str).lookup k = some v := by
  obtain ⟨l₁, l₂, hsplit, hfirst⟩ := List.lookup_eq_some_iff.1 hstored
  obtain ⟨before, segment, after, key', hstr, rfl, hpair, hkey⟩ := emplaced_eq_append hsplit
  by_cases heq : 0x3d ∈ segment
  · obtain ⟨p, rest, rfl, hp⟩ := exists_first_eq heq
    by_cases hrest : 0x3d ∈ rest
    · rw [aroundLast_of_mem _ heq] at hpair
      rcases h.stray _ _ _ hstr ((count_eq hp).2 hrest) with ⟨earlier, hmem, hor, hfst⟩ | hlookup
      · refine (ne_of_lookup hfirst (mem_keys_emplaced.2 ?_)).elim
        rw [← hpair] at hfst
        by_cases hearlier : 0x3d ∈ earlier
        · exact .inl ⟨earlier, hmem, hearlier, hfst⟩
        · rw [aroundLast_of_not_mem hearlier] at hfst
          exact .inr ⟨earlier, hor.resolve_right hearlier, hearlier, hfst⟩
      · rwa [← hpair] at hlookup
    · rw [aroundLast_append hp, aroundLast_of_not_mem hrest] at hpair
      obtain ⟨rfl, rfl⟩ := Prod.mk.inj hpair
      refine lookup_parameters_of_new hp hstr ?_
      rintro ⟨q, hq, hkey⟩
      exact ne_of_lookup hfirst (hkey ▸ h.keys hstr q hq)
  · rw [aroundLast_of_not_mem heq] at hpair
    obtain ⟨rfl, rfl⟩ : k = key' ∧ v = HttpParser.trimSpace segment := Prod.mk.inj hpair
    rcases hkey with ⟨rfl, rfl⟩ | hkey
    · exact h.first segment after hstr (ne_nil_of_cut hcut hstr heq) heq
    · exact (ne_of_lookup hfirst hkey).elim

theorem parameters_uncut (hcut : ¬(0x3d ∈ str ∨ 0x26 ∈ str)) : parameters str = [] := by
  rw [not_or] at hcut
  simp [parameters, segments_of_not_mem hcut.2, parameter, hcut.1]

theorem ReadAsSegments.lookup_stored (h : ReadAsSegments str) (k : Bytes) :
    (stored str).lookup k = (parameters str).lookup k := by
  unfold stored
  split
  · next hcut =>
    cases hstored : (emplaced [] (segments str)).lookup k with
    | some v => exact (h.lookup_parameters hcut hstored).symm
    | none =>
      refine (List.lookup_eq_none_iff.2 ?_).symm
      intro q hq
      rw [bne_iff_ne]
      rintro rfl
      exact ne_of_lookup (List.lookup_eq_none_iff.1 hstored)
        (h.keys (List.append_nil _).symm q hq)
  · next hcut => rw [parameters_uncut hcut]

/-! Conversely, a map of calls that agrees with the parameters leaves no other segments. -/

theorem stored_of_cut (hcut : 0x3d ∈ str ∨ 0x26 ∈ str) : stored str = emplaced [] (segments str) :=
  if_pos hcut

theorem first_of_lookup (h : ∀ k, (stored str).lookup k = (parameters str).lookup k)
    {segment : Bytes} {rest : List Bytes} (hstr : segments str = segment :: rest)
    (hrest : rest ≠ []) (hsegment : 0x3d ∉ segment) :
    (parameters str).lookup [] = some (HttpParser.trimSpace segment) := by
  have hcut : 0x3d ∈ str ∨ 0x26 ∈ str := by
    by_contra hnot
    rw [segments_of_not_mem (not_or.1 hnot).2] at hstr
    exact hrest (List.cons.inj hstr).2.symm
  rw [← h, stored_of_cut hcut, hstr, emplaced, aroundLast_of_not_mem hsegment,
    List.lookup_cons_self]

/-- A new key would have a value with `=`, and no call stores one. -/
theorem repeated_of_lookup (h : ∀ k, (stored str).lookup k = (parameters str).lookup k)
    {before : List Bytes} {segment : Bytes} {after : List Bytes}
    (hstr : segments str = before ++ segment :: after) (hcount : 1 < segment.count 0x3d) :
    ∃ earlier ∈ before.filterMap parameter,
      earlier.1 = HttpParser.trimSpace (segment.takeWhile (· != 0x3d)) := by
  have heq : 0x3d ∈ segment := List.count_pos_iff.1 (Nat.lt_of_succ_lt hcount)
  obtain ⟨p, rest, rfl, hp⟩ := exists_first_eq heq
  rw [takeWhile_append_eq hp]
  by_contra hnew
  have hlookup := lookup_parameters_of_new hp hstr hnew
  rw [← h, stored_of_cut (cut_of_mem hstr heq)] at hlookup
  obtain ⟨l₁, l₂, hsplit, -⟩ := List.lookup_eq_some_iff.1 hlookup
  obtain ⟨-, segment, -, key', -, -, hpair, -⟩ := emplaced_eq_append hsplit
  have hvalue : HttpParser.trimSpace rest = (aroundLast key' (pieces segment)).2 :=
    congrArg Prod.snd hpair
  have hmem : 0x3d ∈ HttpParser.trimSpace rest :=
    (mem_trimSpace (by decide)).2 ((count_eq hp).1 hcount)
  rw [hvalue] at hmem
  exact eq_not_mem_aroundLast hmem

/-- Where no call before stored the key, what is stored for it is what is read. -/
theorem stray_of_lookup (h : ∀ k, (stored str).lookup k = (parameters str).lookup k)
    {before : List Bytes} {segment : Bytes} {after : List Bytes}
    (hstr : segments str = before ++ segment :: after) (heq : 0x3d ∈ segment) :
    (∃ earlier ∈ before, (before.head? = some earlier ∨ 0x3d ∈ earlier) ∧
        (aroundLast [] (pieces earlier)).1 = (aroundLast [] (pieces segment)).1) ∨
      (parameters str).lookup (aroundLast [] (pieces segment)).1 =
        some (aroundLast [] (pieces segment)).2 := by
  by_cases hearlier : ∃ pair ∈ emplaced [] before, pair.1 = (aroundLast [] (pieces segment)).1
  · left
    rcases mem_keys_emplaced.1 hearlier with
      ⟨earlier, hmem, hkey, hfst⟩ | ⟨earlier, hhead, hnot, hfst⟩
    · exact ⟨earlier, hmem, .inr hkey, hfst⟩
    · refine ⟨earlier, List.mem_of_head? hhead, .inl hhead, ?_⟩
      rw [aroundLast_of_not_mem hnot]
      exact hfst
  · right
    obtain ⟨key', later, hsplit, -⟩ := emplaced_append [] before segment after
    rw [← h, stored_of_cut (cut_of_mem hstr heq), hstr, hsplit, aroundLast_of_mem key' heq]
    refine List.lookup_eq_some_iff.2 ⟨_, later, rfl, ?_⟩
    intro q hq
    rw [bne_iff_ne]
    intro hkey
    exact hearlier ⟨q, hq, hkey.symm⟩

theorem readAsSegments_of_lookup
    (h : ∀ k, (stored str).lookup k = (parameters str).lookup k) : ReadAsSegments str where
  first _ _ hstr hrest hsegment := first_of_lookup h hstr hrest hsegment
  repeated _ _ _ hstr hcount := repeated_of_lookup h hstr hcount
  stray _ _ _ hstr hcount :=
    stray_of_lookup h hstr (List.count_pos_iff.1 (Nat.lt_of_succ_lt hcount))

end Reads

/-- **`ParseQuery` reads the segments** of a text, on a parser without queries, exactly if each
segment with a second `=` repeats a key and nothing is stored that the segments do not say. -/
theorem parseQuery_reads_iff (p : HttpParser) (str : Bytes) :
    (∀ k, (({ p with queries := [] } : HttpParser).parseQuery str).queries.lookup k =
      (parameters str).lookup k) ↔ ReadAsSegments str := by
  simp only [lookup_parseQuery]
  exact ⟨readAsSegments_of_lookup, ReadAsSegments.lookup_stored⟩

/-- `token=a=b` is read as the value `b` of a key `a`. -/
theorem value_cut : ¬∀ (p : HttpParser) (str k : Bytes),
    (({ p with queries := [] } : HttpParser).parseQuery str).queries.lookup k =
      (parameters str).lookup k := by
  intro h
  have hvalue := h .fresh (bytes "token=a=b") (bytes "token")
  revert hvalue
  decide

end GameServer.Http
