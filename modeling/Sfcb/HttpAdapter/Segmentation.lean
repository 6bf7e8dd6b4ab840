import Sfcb.Lib.CString

/-!
# Reading the headers of a request

`getHdrs` reads from a connection until the buffer has the end of the headers in it
(`httpAdapter.c`). How many bytes a read returns is up to the network. The end is looked
for in all that has arrived, but the method in the first read alone, and the limit is
tested for what has arrived after a read. `segmentation_iff` says for which streams the
outcome is the same for all ways of reading: those without an end of headers in their
first 9999 bytes, and those with one in the first 5000 that begin with another letter
than the method does.

Mirroring notes:
- A read returns at least one byte and at most `hdrBufsize`; interrupted reads are
  repeated. Behind the last byte the client closes the connection, or keeps silent until
  `select` gives up.
- `buf` is not initialized: what the first read does not fill is what the stack had there.
-/

namespace Sfcb.HttpAdapter

open Sfcb.Lib

def hdrBufsize : Nat := 5000

def hdrLimmit : Nat := 5000

/-- What a client does behind its last byte. -/
inductive StreamEnd where
  | closed
  | silent
  deriving DecidableEq, Repr

/-- The end of the headers is in the buffer, up to its first zero byte. -/
def endOfHeader (data : List UInt8) : Bool :=
  let text := data.takeWhile (· != 0)
  (strstr text (lit "\r\n\r\n")).isSome || (strstr text (lit "\n\n")).isSome

/-- The first `n` bytes of `buf` after a read of `r`. -/
def bufBytes (stack : Nat → UInt8) (r : List UInt8) (n : Nat) : CStr :=
  (List.range n).map fun i => r.getD i (stack i)

/-- The test on the first read: `0`, or `1` for another method. -/
def methodState (stack : Nat → UInt8) (r : List UInt8) (cmd : CStr) : Nat :=
  if strncasecmp (bufBytes stack r cmd.length) cmd cmd.length ≠ 0 then 1 else 0

/-- The loop of `getHdrs`, with the reads that are still to come, to its `state` and the
buffer. -/
def hdrsLoop (stack : Nat → UInt8) (ending : StreamEnd) (cmd : CStr) (first : Bool) (state : Nat)
    (data : List UInt8) : List (List UInt8) → Nat × List UInt8
  | [] =>
    match ending with
    | .silent => (3, data)
    | .closed => if data = [] ∨ endOfHeader data then (state, data) else (3, data)
  | r :: rs =>
    let data := data ++ r
    let state := if first then methodState stack r cmd else state
    if endOfHeader data then (state, data)
    else if hdrLimmit ≤ data.length then (2, data)
    else hdrsLoop stack ending cmd false state data rs

/-- `getHdrs`. -/
def getHdrs (stack : Nat → UInt8) (ending : StreamEnd) (cmd : CStr) (reads : List (List UInt8)) :
    Nat × List UInt8 :=
  hdrsLoop stack ending cmd true 0 [] reads

/-- How many bytes there are up to the end of the headers. -/
def headersEnd (data : List UInt8) : Option Nat :=
  (List.range (data.length + 1)).find? fun n => endOfHeader (data.take n)

/-- The verdict, and the bytes up to the end of the headers. -/
def outcome (p : Nat × List UInt8) : Nat × Option (List UInt8) :=
  (p.1, (headersEnd p.2).map fun n => p.2.take n)

/-- A way to read a stream. -/
structure Splits (stream : List UInt8) (reads : List (List UInt8)) : Prop where
  all : reads.flatten = stream
  some : ∀ r ∈ reads, r ≠ []
  fits : ∀ r ∈ reads, r.length ≤ hdrBufsize

/-! ## The end of the headers -/

theorem takeWhile_prefix_takeWhile {α : Type} (p : α → Bool) {as bs : List α} (h : as <+: bs) :
    as.takeWhile p <+: bs.takeWhile p := by
  obtain ⟨rest, rfl⟩ := h
  rw [List.takeWhile_append]
  split
  · next hall =>
    have hfull : as.takeWhile p = as := (List.takeWhile_prefix p).eq_of_length hall
    rw [hfull]
    exact List.prefix_append as _
  · exact List.prefix_refl _

/-- What has the end of the headers in it has it when more arrives. -/
theorem endOfHeader_mono {as bs : List UInt8} (h : as <+: bs) (hend : endOfHeader as = true) :
    endOfHeader bs = true := by
  have htext := (takeWhile_prefix_takeWhile (· != 0) h).isInfix
  unfold endOfHeader at hend ⊢
  rw [Bool.or_eq_true, strstr_isSome_iff, strstr_isSome_iff] at hend ⊢
  exact hend.imp (·.trans htext) (·.trans htext)

theorem headersEnd_eq_some_iff {data : List UInt8} {n : Nat} :
    headersEnd data = some n ↔
      n ≤ data.length ∧ endOfHeader (data.take n) = true ∧
        ∀ k < n, endOfHeader (data.take k) = false := by
  unfold headersEnd
  rw [List.find?_range_eq_some]
  constructor
  · rintro ⟨hend, hmem, hbefore⟩
    refine ⟨by rw [List.mem_range] at hmem; omega, hend, fun k hk => by simpa using hbefore k hk⟩
  · rintro ⟨hle, hend, hbefore⟩
    exact ⟨hend, List.mem_range.mpr (by omega), fun k hk => by simpa using hbefore k hk⟩

theorem headersEnd_eq_none_iff {data : List UInt8} :
    headersEnd data = none ↔ endOfHeader data = false := by
  constructor
  · intro h
    have hall := List.find?_eq_none.mp h data.length (List.mem_range.mpr (by omega))
    simpa using hall
  · intro h
    refine List.find?_eq_none.mpr fun n _ hend => ?_
    rw [endOfHeader_mono (List.take_prefix n data) hend] at h
    exact absurd h (by simp)

/-- A part of the stream has the end of the headers where the stream has it. -/
theorem headersEnd_of_prefix {as bs : List UInt8} (h : as <+: bs) (hend : endOfHeader as = true) :
    headersEnd bs = headersEnd as ∧ ∃ n, headersEnd as = some n ∧ as.take n = bs.take n := by
  cases has : headersEnd as with
  | none =>
    rw [headersEnd_eq_none_iff.mp has] at hend
    exact absurd hend (by simp)
  | some n =>
    obtain ⟨hle, hat, hbefore⟩ := headersEnd_eq_some_iff.mp has
    obtain ⟨rest, rfl⟩ := h
    have htake : ∀ k ≤ n, (as ++ rest).take k = as.take k := fun k hk =>
      List.take_append_of_le_length (Nat.le_trans hk hle)
    refine ⟨headersEnd_eq_some_iff.mpr ⟨?_, ?_, fun k hk => ?_⟩, n, rfl, (htake n (Nat.le_refl n)).symm⟩
    · rw [List.length_append]
      omega
    · rw [htake n (Nat.le_refl n)]
      exact hat
    · rw [htake k (Nat.le_of_lt hk)]
      exact hbefore k hk

/-! ## Reading -/

section Reading

variable {stack : Nat → UInt8} {ending : StreamEnd} {cmd : CStr}

/-- How reading ends: with the end of the headers in the buffer, at the limit, or because
nothing more comes. -/
structure Ended (stream : List UInt8) (state : Nat) (p : Nat × List UInt8) : Prop where
  part : p.2 <+: stream
  cases : (p.1 = state ∧ endOfHeader p.2 = true ∧ p.2.length < hdrLimmit + hdrBufsize) ∨
    (p.1 = 2 ∧ endOfHeader p.2 = false ∧ hdrLimmit ≤ p.2.length) ∨
    (p.1 = 3 ∧ endOfHeader stream = false ∧ stream.length < hdrLimmit)

theorem hdrsLoop_ended {state : Nat} {reads : List (List UInt8)} :
    ∀ {data : List UInt8}, (∀ r ∈ reads, r ≠ []) → (∀ r ∈ reads, r.length ≤ hdrBufsize) →
      data.length < hdrLimmit → endOfHeader data = false → data ≠ [] ∨ reads ≠ [] →
      Ended (data ++ reads.flatten) state (hdrsLoop stack ending cmd false state data reads) := by
  induction reads with
  | nil =>
    intro data _ _ hlen hopen hne
    have hdata : data ≠ [] := hne.resolve_right (fun h => h rfl)
    have hlast : hdrsLoop stack ending cmd false state data [] = (3, data) := by
      cases ending with
      | silent => rfl
      | closed => exact if_neg (by simp [hdata, hopen])
    rw [hlast, List.flatten_nil, List.append_nil]
    exact ⟨List.prefix_refl data, Or.inr (Or.inr ⟨rfl, hopen, hlen⟩)⟩
  | cons r rs ih =>
    intro data hsome hfits hlen hopen hne
    have hr : r.length ≤ hdrBufsize := hfits r List.mem_cons_self
    have hstream : data ++ (r :: rs).flatten = (data ++ r) ++ rs.flatten := by
      rw [List.flatten_cons, List.append_assoc]
    rw [hstream]
    unfold hdrsLoop
    dsimp only
    by_cases hend : endOfHeader (data ++ r) = true
    · rw [if_pos hend]
      refine ⟨List.prefix_append _ _, Or.inl ⟨by simp, hend, ?_⟩⟩
      rw [List.length_append]
      omega
    · rw [if_neg hend]
      have hend : endOfHeader (data ++ r) = false := by simpa using hend
      by_cases hlimit : hdrLimmit ≤ (data ++ r).length
      · rw [if_pos hlimit]
        exact ⟨List.prefix_append _ _, Or.inr (Or.inl ⟨rfl, hend, hlimit⟩)⟩
      · rw [if_neg hlimit]
        exact ih (fun r hr => hsome r (List.mem_cons_of_mem _ hr))
          (fun r hr => hfits r (List.mem_cons_of_mem _ hr)) (Nat.not_le.mp hlimit) hend
          (Or.inl (by simp [hsome r List.mem_cons_self]))

/-- The state of the first read is kept to the end of the headers. -/
theorem getHdrs_ended {r : List UInt8} {rs : List (List UInt8)} {stream : List UInt8}
    (h : Splits stream (r :: rs)) :
    Ended stream (methodState stack r cmd) (getHdrs stack ending cmd (r :: rs)) := by
  have hfirst : getHdrs stack ending cmd (r :: rs) =
      hdrsLoop stack ending cmd false (methodState stack r cmd) [] (r :: rs) := rfl
  have hended := @hdrsLoop_ended stack ending cmd (methodState stack r cmd) (r :: rs) [] h.some
    h.fits (by decide) (by decide) (Or.inr (List.cons_ne_nil r rs))
  rwa [List.nil_append, h.all, ← hfirst] at hended

variable {stream : List UInt8} {state n : Nat} {p : Nat × List UInt8}

/-- Without an end of the headers the verdict depends on the number of bytes. -/
theorem Ended.of_none (h : Ended stream state p) (hopen : headersEnd stream = none) :
    outcome p = (if hdrLimmit ≤ stream.length then 2 else 3, none) := by
  have hopen := headersEnd_eq_none_iff.mp hopen
  have hpart : endOfHeader p.2 = false := by
    cases hend : endOfHeader p.2 with
    | false => rfl
    | true =>
      rw [endOfHeader_mono h.part hend] at hopen
      exact absurd hopen (by simp)
  unfold outcome
  rw [headersEnd_eq_none_iff.mpr hpart]
  rcases h.cases with ⟨-, hend, -⟩ | ⟨hstate, -, hlimit⟩ | ⟨hstate, -, hlimit⟩
  · rw [hpart] at hend
    exact absurd hend (by simp)
  · rw [hstate, if_pos (Nat.le_trans hlimit h.part.length_le)]
    rfl
  · rw [hstate, if_neg (Nat.not_le.mpr hlimit)]
    rfl

theorem endOfHeader_of_headersEnd (h : headersEnd stream = some n) : endOfHeader stream = true :=
  endOfHeader_mono (List.take_prefix n stream) (headersEnd_eq_some_iff.mp h).2.1

/-- An end that no read can reach in time. -/
theorem Ended.of_late (h : Ended stream state p) (hend : headersEnd stream = some n)
    (hlate : hdrLimmit + hdrBufsize ≤ n) : outcome p = (2, none) := by
  unfold outcome
  rcases h.cases with ⟨-, hpart, hlen⟩ | ⟨hstate, hpart, -⟩ | ⟨-, hopen, -⟩
  · obtain ⟨hsame, k, hk, -⟩ := headersEnd_of_prefix h.part hpart
    rw [hend, hk] at hsame
    have hle := (headersEnd_eq_some_iff.mp hk).1
    have := Option.some.inj hsame
    omega
  · rw [hstate, headersEnd_eq_none_iff.mpr hpart]
    rfl
  · rw [endOfHeader_of_headersEnd hend] at hopen
    exact absurd hopen (by simp)

/-- An end that is there when the limit is tested. -/
theorem Ended.of_early (h : Ended stream state p) (hend : headersEnd stream = some n)
    (hearly : n ≤ hdrLimmit) : outcome p = (state, some (stream.take n)) := by
  unfold outcome
  rcases h.cases with ⟨hstate, hpart, -⟩ | ⟨-, hpart, hlimit⟩ | ⟨-, hopen, -⟩
  · obtain ⟨hsame, k, hk, htake⟩ := headersEnd_of_prefix h.part hpart
    rw [hend, hk] at hsame
    obtain rfl := Option.some.inj hsame
    rw [hstate, hk, Option.map_some, htake]
  · -- the buffer has the end in it
    obtain ⟨-, hat, -⟩ := headersEnd_eq_some_iff.mp hend
    have hinside : stream.take n <+: p.2 :=
      List.prefix_of_prefix_length_le (List.take_prefix n stream) h.part
        (Nat.le_trans (List.length_take_le n stream) (Nat.le_trans hearly hlimit))
    rw [endOfHeader_mono hinside hat] at hpart
    exact absurd hpart (by simp)
  · rw [endOfHeader_of_headersEnd hend] at hopen
    exact absurd hopen (by simp)

end Reading

/-! ## The first read -/

/-- The method the daemon serves. -/
def post : CStr := lit "POST "

/-- Whatever follows, another first letter is another method. -/
theorem methodState_of_ne (stack : Nat → UInt8) {b : UInt8} (r : List UInt8)
    (hb : toLower b ≠ toLower 80) : methodState stack (b :: r) post = 1 := by
  refine if_pos fun hzero => hb ?_
  have hlen : ((bufBytes stack (b :: r) 5).map toLower).length = (post.map toLower).length := by
    rw [List.length_map, bufBytes, List.length_map, List.length_range]
    rfl
  have hfold : (bufBytes stack (b :: r) 5).map toLower = post.map toLower :=
    (strcmp_eq_zero_iff hlen).mp hzero
  exact (List.cons.inj hfold).1

/-- A single byte leaves the rest of the method to what is on the stack. -/
theorem methodState_of_eq {b : UInt8} (hb : toLower b = toLower 80) :
    methodState (fun i => post.getD i 0) [b] post = 0 ∧ methodState (fun _ => 0) [b] post = 1 := by
  have hbytes : ∀ stack : Nat → UInt8, (bufBytes stack [b] 5).map toLower =
      [toLower b, toLower (stack 1), toLower (stack 2), toLower (stack 3), toLower (stack 4)] :=
    fun _ => rfl
  have hstate : ∀ stack : Nat → UInt8, methodState stack [b] post =
      if strcmp ((bufBytes stack [b] 5).map toLower) (post.map toLower) ≠ 0 then 1 else 0 :=
    fun _ => rfl
  rw [hstate, hstate, hbytes, hbytes, hb]
  decide

/-! ## Segmentation -/

/-- Byte for byte is a way to read. -/
theorem splits_bytes (stream : List UInt8) : Splits stream (stream.map fun b => [b]) := by
  refine ⟨?_, ?_, ?_⟩
  · induction stream with
    | nil => rfl
    | cons b bs ih => rw [List.map_cons, List.flatten_cons, ih, List.singleton_append]
  · intro r hr
    obtain ⟨b, -, rfl⟩ := List.mem_map.mp hr
    exact List.cons_ne_nil b []
  · intro r hr
    obtain ⟨b, -, rfl⟩ := List.mem_map.mp hr
    exact Nat.succ_le_of_lt (by decide)

theorem Splits.cons {r stream : List UInt8} {reads : List (List UInt8)} (h : Splits stream reads)
    (hr : r ≠ []) (hfits : r.length ≤ hdrBufsize) : Splits (r ++ stream) (r :: reads) := by
  refine ⟨by rw [List.flatten_cons, h.all], fun s hs => ?_, fun s hs => ?_⟩
  · rcases List.mem_cons.mp hs with rfl | hs
    · exact hr
    · exact h.some s hs
  · rcases List.mem_cons.mp hs with rfl | hs
    · exact hfits
    · exact h.fits s hs

/-- However the stream is read, the outcome is one. -/
def Independent (ending : StreamEnd) (stream : List UInt8) : Prop :=
  ∀ stack₁ stack₂ reads₁ reads₂, Splits stream reads₁ → Splits stream reads₂ →
    outcome (getHdrs stack₁ ending post reads₁) = outcome (getHdrs stack₂ ending post reads₂)

theorem methodState_ne_two (stack : Nat → UInt8) (r : List UInt8) (cmd : CStr) :
    methodState stack r cmd ≠ 2 := by
  unfold methodState
  split <;> decide

/-- An end between the limit and what two reads can bring is met or missed. -/
theorem not_independent_of_between {ending : StreamEnd} {stream : List UInt8} {n : Nat}
    (hend : headersEnd stream = some n) (habove : hdrLimmit < n)
    (hbelow : n < hdrLimmit + hdrBufsize) : ¬ Independent ending stream := by
  obtain ⟨hle, hat, hbefore⟩ := headersEnd_eq_some_iff.mp hend
  have hlimit : hdrLimmit = 5000 := rfl
  have hsize : hdrBufsize = 5000 := rfl
  have htake : ∀ k ≤ n, (stream.take k).length = k := fun k hk => by
    rw [List.length_take]
    omega
  intro h
  -- a read that fills the buffer, and the limit is there before the end
  let r := stream.take hdrBufsize
  have hr : r.length = hdrBufsize := htake _ (by omega)
  have hsplit : Splits stream (r :: (stream.drop hdrBufsize).map fun b => [b]) := by
    have hcons := (splits_bytes (stream.drop hdrBufsize)).cons (r := r)
      (List.ne_nil_of_length_pos (by omega)) (by omega)
    rwa [List.take_append_drop] at hcons
  have hmissed : ∀ stack : Nat → UInt8,
      (getHdrs stack ending post (r :: (stream.drop hdrBufsize).map fun b => [b])).1 = 2 := by
    intro stack
    unfold getHdrs hdrsLoop
    dsimp only
    rw [List.nil_append, if_neg (by rw [hbefore _ (by omega)]; decide), if_pos (by omega)]
  -- a read of one byte less, and a second one that brings the end
  let r₁ := stream.take (hdrLimmit - 1)
  let r₂ := (stream.drop (hdrLimmit - 1)).take hdrBufsize
  let rest := stream.drop (hdrLimmit - 1 + hdrBufsize)
  have hr₁ : r₁.length = hdrLimmit - 1 := htake _ (by omega)
  have hr₂ : 0 < r₂.length ∧ r₂.length ≤ hdrBufsize := by
    rw [List.length_take, List.length_drop]
    omega
  have hsplit' : Splits stream (r₁ :: r₂ :: rest.map fun b => [b]) := by
    have hcons := ((splits_bytes rest).cons (r := r₂) (List.ne_nil_of_length_pos hr₂.1) hr₂.2).cons
      (r := r₁) (List.ne_nil_of_length_pos (by omega)) (by omega)
    have hrest : r₂ ++ rest = stream.drop (hdrLimmit - 1) := by
      show _ ++ stream.drop (hdrLimmit - 1 + hdrBufsize) = _
      rw [← List.drop_drop, List.take_append_drop]
    rwa [hrest, List.take_append_drop] at hcons
  have hmet : ∀ stack : Nat → UInt8,
      (getHdrs stack ending post (r₁ :: r₂ :: rest.map fun b => [b])).1
        = methodState stack r₁ post := by
    intro stack
    have hboth : stream.take n <+: r₁ ++ r₂ := by
      rw [← List.take_add]
      exact List.take_prefix_take_left (by omega)
    unfold getHdrs hdrsLoop
    dsimp only
    rw [List.nil_append, if_neg (by rw [hbefore _ (by omega)]; decide), if_neg (by omega)]
    unfold hdrsLoop
    dsimp only
    rw [if_pos (endOfHeader_mono hboth hat)]
    rfl
  have hsame := congrArg Prod.fst (h (fun _ => 0) (fun _ => 0) _ _ hsplit hsplit')
  exact methodState_ne_two _ _ _ ((hmet _).symm.trans (hsame.symm.trans (hmissed _)))

/-- The first byte of the method alone: the stack decides. -/
theorem not_independent_of_method {ending : StreamEnd} {b : UInt8} {bs : List UInt8} {n : Nat}
    (hend : headersEnd (b :: bs) = some n) (hearly : n ≤ hdrLimmit)
    (hb : toLower b = toLower 80) : ¬ Independent ending (b :: bs) := by
  intro h
  have hsplit := splits_bytes (b :: bs)
  have hread : ∀ stack : Nat → UInt8,
      outcome (getHdrs stack ending post ((b :: bs).map fun b => [b]))
        = (methodState stack [b] post, some ((b :: bs).take n)) :=
    fun stack => (getHdrs_ended hsplit).of_early hend hearly
  have hsame := h (fun i => post.getD i 0) (fun _ => 0) _ _ hsplit hsplit
  rw [hread, hread, (methodState_of_eq hb).1, (methodState_of_eq hb).2] at hsame
  exact absurd (congrArg Prod.fst hsame) (by simp)

/-- The outcome of `getHdrs` does not depend on how the network splits a stream exactly if
the end of its headers, where it has one, is too far behind for any way of reading, or is
in front of the limit and the stream begins with another letter than the method. -/
theorem segmentation_iff (ending : StreamEnd) (stream : List UInt8) :
    Independent ending stream ↔
      ∀ n, headersEnd stream = some n → hdrLimmit + hdrBufsize ≤ n ∨
        (n ≤ hdrLimmit ∧ ∀ b ∈ stream.head?, toLower b ≠ toLower 80) := by
  constructor
  · intro h n hend
    by_cases hlate : hdrLimmit + hdrBufsize ≤ n
    · exact Or.inl hlate
    by_cases hearly : n ≤ hdrLimmit
    · refine Or.inr ⟨hearly, fun b hb heq => ?_⟩
      cases stream with
      | nil => exact absurd hb (by simp)
      | cons b' bs =>
        obtain rfl := Option.some.inj hb
        exact not_independent_of_method hend hearly heq h
    · exact absurd h (not_independent_of_between hend (Nat.not_le.mp hearly) (Nat.not_le.mp hlate))
  · intro hcond stack₁ stack₂ reads₁ reads₂ h₁ h₂
    have hnil : ∀ reads, Splits stream reads → (reads = [] ↔ stream = []) := by
      intro reads h
      rw [← h.all]
      constructor
      · rintro rfl
        rfl
      · intro hflat
        cases reads with
        | nil => rfl
        | cons r rs => exact absurd (List.append_eq_nil_iff.mp hflat).1 (h.some r List.mem_cons_self)
    cases reads₁ with
    | nil =>
      have hreads₂ : reads₂ = [] := (hnil _ h₂).mpr ((hnil _ h₁).mp rfl)
      rw [hreads₂]
      rfl
    | cons r₁ rs₁ =>
      cases reads₂ with
      | nil => exact absurd ((hnil _ h₁).mpr ((hnil _ h₂).mp rfl)) (List.cons_ne_nil _ _)
      | cons r₂ rs₂ =>
        have hended₁ := @getHdrs_ended stack₁ ending post r₁ rs₁ stream h₁
        have hended₂ := @getHdrs_ended stack₂ ending post r₂ rs₂ stream h₂
        cases hend : headersEnd stream with
        | none => rw [hended₁.of_none hend, hended₂.of_none hend]
        | some n =>
          rcases hcond n hend with hlate | ⟨hearly, hhead⟩
          · rw [hended₁.of_late hend hlate, hended₂.of_late hend hlate]
          · have hmethod : ∀ (stack : Nat → UInt8) {r : List UInt8} {rs : List (List UInt8)},
                Splits stream (r :: rs) → methodState stack r post = 1 := by
              intro stack r rs h
              cases r with
              | nil => exact absurd rfl (h.some [] List.mem_cons_self)
              | cons b r =>
                refine methodState_of_ne stack r (hhead b ?_)
                rw [← h.all]
                rfl
            rw [hended₁.of_early hend hearly, hended₂.of_early hend hearly, hmethod _ h₁,
              hmethod _ h₂]

/-- The request line of a `POST` with its first byte in a read of its own, and a stack of
zeros: the method is taken for another one. -/
theorem not_independent_post : ¬ Independent .closed (lit "POST /cimom HTTP/1.1\r\n\r\n") := by
  intro h
  have hwhole : Splits (lit "POST /cimom HTTP/1.1\r\n\r\n")
      [lit "POST /cimom HTTP/1.1\r\n\r\n"] := ⟨rfl, by decide, by decide⟩
  have hfirst : Splits (lit "POST /cimom HTTP/1.1\r\n\r\n")
      [lit "P", lit "OST /cimom HTTP/1.1\r\n\r\n"] := ⟨rfl, by decide, by decide⟩
  exact absurd (h (fun _ => 0) (fun _ => 0) _ _ hwhole hfirst) (by decide)

end Sfcb.HttpAdapter
