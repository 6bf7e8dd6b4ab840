import Sfcb.Lib.Numeral

/-!
# Reading one HTTP/1.1 response

The client's side of a connection: `parseResponse` takes one response off the
front of a byte stream and returns it with what follows, or fails when the bytes
are no well-formed response. A stream holds exactly one response when parsing
leaves nothing (`isOneResponse`).

The second half is the other direction: rules of the form "a printed piece,
followed by anything, parses back to the piece and the anything", from a single
line up to a response with either kind of body. They compose, because each is
stated for an arbitrary continuation.
-/

namespace Sfcb.Lib.Http

open Sfcb.Lib

abbrev crlf : CStr := [13, 10]

/-- A field: its name and its value. -/
abbrev Field := CStr × CStr

/-- The two ways the length of a body is told. -/
inductive Body where
  | sized (data : CStr)
  | chunked (chunks : List CStr) (trailers : List Field)
  deriving DecidableEq, Repr

structure Response where
  statusLine : CStr
  fields : List Field
  body : Body
  deriving DecidableEq, Repr

/-! ## Parsing -/

/-- The bytes up to the first line end, and the bytes after it. -/
def takeLine : CStr → Option (CStr × CStr)
  | [] => none
  | [_] => none
  | a :: b :: rest =>
    if a = 13 ∧ b = 10 then some ([], rest)
    else (takeLine (b :: rest)).map fun p => (a :: p.1, p.2)

/-- `HTTP/1.1`, a status of three digits and a reason. -/
def isStatusLine (line : CStr) : Bool :=
  line.take 9 == lit "HTTP/1.1 " &&
  ((line.drop 9).take 3).all (fun b => (digitVal 10 b).isSome) &&
  (line.drop 12).take 1 == lit " "

/-- Splits a line into a field at its first colon. -/
def parseField (line : CStr) : Option Field :=
  let name := line.takeWhile (· != 58)
  match line.dropWhile (· != 58) with
  | [] => none
  | _ :: value => if name = [] then none else some (name, value.dropWhile (· == 32))

/-- Fields up to the empty line that ends them. -/
def takeFields : (fuel : Nat) → CStr → Option (List Field × CStr)
  | 0, _ => none
  | fuel + 1, bytes =>
    match takeLine bytes with
    | none => none
    | some (line, rest) =>
      if line = [] then some ([], rest)
      else
        match parseField line, takeFields fuel rest with
        | some f, some (fs, rest') => some (f :: fs, rest')
        | _, _ => none

/-- A line that is a number and nothing else. -/
def parseNumber (base : Nat) (line : CStr) : Option Nat :=
  if line ≠ [] ∧ (scanDigits base 0 line).2 = [] then some (scanDigits base 0 line).1 else none

/-- Chunks up to the one of size zero. -/
def takeChunks : (fuel : Nat) → CStr → Option (List CStr × CStr)
  | 0, _ => none
  | fuel + 1, bytes =>
    match takeLine bytes with
    | none => none
    | some (line, rest) =>
      match parseNumber 16 line with
      | none => none
      | some 0 => some ([], rest)
      | some (n + 1) =>
        if (rest.take (n + 1)).length = n + 1 ∧ (rest.drop (n + 1)).take 2 = crlf then
          match takeChunks fuel (rest.drop (n + 3)) with
          | some (cs, rest') => some (rest.take (n + 1) :: cs, rest')
          | none => none
        else none

/-- The value of a field, whatever the case of its name. -/
def fieldValue (fs : List Field) (name : CStr) : Option CStr :=
  (fs.find? fun f => f.1.map toLower == name.map toLower).map Prod.snd

/-- One response off the front of the bytes. -/
def parseResponse (bytes : CStr) : Option (Response × CStr) :=
  match takeLine bytes with
  | none => none
  | some (line, rest) =>
    if isStatusLine line then
      match takeFields bytes.length rest with
      | none => none
      | some (fs, rest) =>
        if (fieldValue fs (lit "Transfer-Encoding")).map (·.map toLower)
            = some (lit "chunked") then
          match takeChunks bytes.length rest with
          | none => none
          | some (cs, rest) =>
            match takeFields bytes.length rest with
            | none => none
            | some (ts, rest) => some (⟨line, fs, .chunked cs ts⟩, rest)
        else
          match (fieldValue fs (lit "Content-Length")).bind (parseNumber 10) with
          | none => none
          | some n =>
            if (rest.take n).length = n then
              some (⟨line, fs, .sized (rest.take n)⟩, rest.drop n)
            else none
    else none

/-- The bytes are this response and nothing else. -/
def isOneResponse (bytes : CStr) (r : Response) : Prop :=
  parseResponse bytes = some (r, [])

/-! ## Printed pieces parse back -/

theorem takeLine_append {line : CStr} (h : 13 ∉ line) (rest : CStr) :
    takeLine (line ++ 13 :: 10 :: rest) = some (line, rest) := by
  induction line with
  | nil => rfl
  | cons a line ih =>
    have ha : a ≠ 13 := fun e => h (e ▸ List.mem_cons_self ..)
    have hrest := ih fun e => h (List.mem_cons_of_mem _ e)
    cases line with
    | nil => simp [takeLine, ha]
    | cons b line =>
      simp only [List.cons_append, takeLine, ha, false_and, if_false]
      rw [List.cons_append] at hrest
      rw [hrest]
      rfl

/-- A field as it is printed. -/
def printField (f : Field) : CStr := f.1 ++ 58 :: 32 :: f.2 ++ crlf

/-- What a field must keep to: no colon in the name, no line end anywhere, and no
blank in front of the value. -/
structure FieldOk (f : Field) : Prop where
  name_ne : f.1 ≠ []
  no_colon : 58 ∉ f.1
  no_cr : 13 ∉ f.1 ∧ 13 ∉ f.2
  no_blank : f.2.head? ≠ some 32

instance (f : Field) : Decidable (FieldOk f) :=
  decidable_of_iff (f.1 ≠ [] ∧ 58 ∉ f.1 ∧ (13 ∉ f.1 ∧ 13 ∉ f.2) ∧ f.2.head? ≠ some 32)
    ⟨fun ⟨a, b, c, d⟩ => ⟨a, b, c, d⟩, fun ⟨a, b, c, d⟩ => ⟨a, b, c, d⟩⟩

private theorem takeWhile_ne_append {name : CStr} {b : UInt8} (h : b ∉ name) (rest : CStr) :
    (name ++ b :: rest).takeWhile (· != b) = name ∧
      (name ++ b :: rest).dropWhile (· != b) = b :: rest := by
  induction name with
  | nil => simp
  | cons a name ih =>
    have ha : (a != b) = true := by
      simp only [bne_iff_ne]
      exact fun e => h (e ▸ List.mem_cons_self ..)
    obtain ⟨ht, hd⟩ := ih fun e => h (List.mem_cons_of_mem _ e)
    simp only [List.cons_append]
    rw [List.takeWhile_cons_of_pos (by simpa using ha), List.dropWhile_cons_of_pos (by simpa using ha),
      ht, hd]
    exact ⟨rfl, rfl⟩

theorem parseField_print {f : Field} (h : FieldOk f) :
    parseField (f.1 ++ 58 :: 32 :: f.2) = some f := by
  obtain ⟨hname, hvalue⟩ := takeWhile_ne_append h.no_colon (32 :: f.2)
  have hblank : (32 :: f.2).dropWhile (· == 32) = f.2 := by
    rw [List.dropWhile_cons_of_pos (by rfl)]
    have hb := h.no_blank
    cases hf : f.2 with
    | nil => rfl
    | cons b bs =>
      rw [hf] at hb
      rw [List.dropWhile_cons_of_neg (by simpa using hb)]
  simp only [parseField, hname, hvalue, if_neg h.name_ne, hblank]

/-- A header or trailer section. -/
theorem takeFields_print {fs : List Field} (h : ∀ f ∈ fs, FieldOk f) (rest : CStr) :
    ∀ fuel, fs.length < fuel →
      takeFields fuel (fs.flatMap printField ++ 13 :: 10 :: rest) = some (fs, rest) := by
  induction fs with
  | nil =>
    intro fuel hfuel
    obtain ⟨fuel, rfl⟩ : ∃ k, fuel = k + 1 := ⟨fuel - 1, by simp at hfuel; omega⟩
    rfl
  | cons f fs ih =>
    intro fuel hfuel
    obtain ⟨fuel, rfl⟩ : ∃ k, fuel = k + 1 := ⟨fuel - 1, by simp at hfuel; omega⟩
    have hf := h f (List.mem_cons_self ..)
    have hnocr : 13 ∉ f.1 ++ 58 :: 32 :: f.2 := by
      have hcr := hf.no_cr
      simp [hcr.1, hcr.2]
    have hline := takeLine_append hnocr (fs.flatMap printField ++ 13 :: 10 :: rest)
    have hbytes : (f :: fs).flatMap printField ++ 13 :: 10 :: rest
        = (f.1 ++ 58 :: 32 :: f.2) ++ 13 :: 10 :: (fs.flatMap printField ++ 13 :: 10 :: rest) := by
      simp [printField]
    rw [hbytes]
    simp only [takeFields, hline]
    rw [if_neg (by simp), parseField_print hf,
      ih (fun g hg => h g (List.mem_cons_of_mem _ hg)) fuel (by simpa using hfuel)]

theorem parseNumber_numeral (base : Nat) (h2 : 2 ≤ base) (h16 : base ≤ 16) (n : Nat) :
    parseNumber base (numeral base n) = some n := by
  have hscan := scanDigits_numeral h2 h16 n 0 []
  rw [List.append_nil, Nat.zero_mul, Nat.zero_add, scanDigits] at hscan
  rw [parseNumber, hscan, if_pos ⟨numeral_ne_nil h2 n, rfl⟩]

theorem cr_not_mem_numeral (base : Nat) (h2 : 2 ≤ base) (h16 : base ≤ 16) (n : Nat) :
    13 ∉ numeral base n := by
  intro h
  refine mem_numeral h2 h16 n h ?_
  rw [digitVal, if_neg]
  have : digitRank 13 = 255 := rfl
  omega

/-- A chunk as it is printed, with the line end behind its data. -/
def printChunk (c : CStr) : CStr := numeral 16 c.length ++ crlf ++ c ++ crlf

/-- A chunked body up to the chunk of size zero. -/
theorem takeChunks_print {cs : List CStr} (h : ∀ c ∈ cs, c ≠ []) (rest : CStr) :
    ∀ fuel, cs.length < fuel →
      takeChunks fuel (cs.flatMap printChunk ++ 48 :: 13 :: 10 :: rest) = some (cs, rest) := by
  induction cs with
  | nil =>
    intro fuel hfuel
    obtain ⟨fuel, rfl⟩ : ∃ k, fuel = k + 1 := ⟨fuel - 1, by simp at hfuel; omega⟩
    rfl
  | cons c cs ih =>
    intro fuel hfuel
    obtain ⟨fuel, rfl⟩ : ∃ k, fuel = k + 1 := ⟨fuel - 1, by simp at hfuel; omega⟩
    obtain ⟨n, hn⟩ : ∃ n, c.length = n + 1 :=
      ⟨c.length - 1, by have := List.length_pos_iff.mpr (h c (List.mem_cons_self ..)); omega⟩
    have hbytes : (c :: cs).flatMap printChunk ++ 48 :: 13 :: 10 :: rest
        = numeral 16 (n + 1) ++ 13 :: 10 ::
          (c ++ 13 :: 10 :: (cs.flatMap printChunk ++ 48 :: 13 :: 10 :: rest)) := by
      simp [printChunk, hn]
    -- the line with the length, then the data and the line end behind it
    have hline := takeLine_append (cr_not_mem_numeral 16 (by decide) (by decide) (n + 1))
      (c ++ 13 :: 10 :: (cs.flatMap printChunk ++ 48 :: 13 :: 10 :: rest))
    have hdrop : ∀ tail : CStr, (c ++ 13 :: 10 :: tail).drop (n + 3) = tail := by
      intro tail
      rw [List.drop_append, hn, List.drop_of_length_le (by omega)]
      have hk : n + 3 - (n + 1) = 2 := by omega
      rw [hk]
      rfl
    have htake : ∀ tail : CStr, (c ++ 13 :: 10 :: tail).take (n + 1) = c := by
      intro tail
      rw [← hn, List.take_left]
    have hend : ∀ tail : CStr, ((c ++ 13 :: 10 :: tail).drop (n + 1)).take 2 = crlf := by
      intro tail
      rw [← hn, List.drop_left]
      rfl
    rw [hbytes]
    simp only [takeChunks, hline, parseNumber_numeral 16 (by decide) (by decide), htake,
      hdrop, hend, hn, and_self, if_true]
    rw [ih (fun d hd => h d (List.mem_cons_of_mem _ hd)) fuel (by simpa using hfuel)]

/-- A status line and its header section, with the empty line. -/
def printHead (statusLine : CStr) (fs : List Field) : CStr :=
  statusLine ++ crlf ++ fs.flatMap printField ++ crlf

private theorem length_le_flatMap {α : Type} (f : α → CStr) (hf : ∀ a, 1 ≤ (f a).length) :
    ∀ l : List α, l.length ≤ (l.flatMap f).length := by
  intro l
  induction l with
  | nil => simp
  | cons a l ih =>
    have ha := hf a
    simp only [List.flatMap_cons, List.length_append, List.length_cons]
    omega

theorem length_le_printFields (fs : List Field) : fs.length ≤ (fs.flatMap printField).length :=
  length_le_flatMap printField (fun f => by simp [printField]; omega) fs

theorem length_le_printChunks (cs : List CStr) : cs.length ≤ (cs.flatMap printChunk).length :=
  length_le_flatMap printChunk (fun c => by simp [printChunk]; omega) cs

/-- A response whose body has the announced length. -/
theorem parseResponse_sized {statusLine : CStr} {fs : List Field} {body : CStr}
    (hs : isStatusLine statusLine = true) (hcr : 13 ∉ statusLine) (hfs : ∀ f ∈ fs, FieldOk f)
    (hte : fieldValue fs (lit "Transfer-Encoding") = none)
    (hcl : fieldValue fs (lit "Content-Length") = some (numeral 10 body.length)) (rest : CStr) :
    parseResponse (printHead statusLine fs ++ body ++ rest)
      = some (⟨statusLine, fs, .sized body⟩, rest) := by
  have hbytes : printHead statusLine fs ++ body ++ rest
      = statusLine ++ 13 :: 10 :: (fs.flatMap printField ++ 13 :: 10 :: (body ++ rest)) := by
    simp [printHead]
  have hline := takeLine_append hcr (fs.flatMap printField ++ 13 :: 10 :: (body ++ rest))
  have hfuel : fs.length < (printHead statusLine fs ++ body ++ rest).length := by
    have := length_le_printFields fs
    simp only [printHead, List.length_append, List.length_cons]
    omega
  have hfields := takeFields_print hfs (body ++ rest) _ hfuel
  rw [hbytes] at hfields ⊢
  simp only [parseResponse, hline, hs, if_true, hfields, hte, hcl, Option.map_none,
    Option.bind_some, parseNumber_numeral 10 (by decide) (by decide), reduceCtorEq,
    if_false, List.take_left, List.drop_left]

/-- A chunked response. -/
theorem parseResponse_chunked {statusLine : CStr} {fs ts : List Field} {cs : List CStr}
    (hs : isStatusLine statusLine = true) (hcr : 13 ∉ statusLine) (hfs : ∀ f ∈ fs, FieldOk f)
    (hte : fieldValue fs (lit "Transfer-Encoding") = some (lit "chunked"))
    (hcs : ∀ c ∈ cs, c ≠ []) (hts : ∀ f ∈ ts, FieldOk f) (rest : CStr) :
    parseResponse (printHead statusLine fs ++ cs.flatMap printChunk ++ lit "0" ++ crlf
        ++ ts.flatMap printField ++ crlf ++ rest)
      = some (⟨statusLine, fs, .chunked cs ts⟩, rest) := by
  have hbytes : printHead statusLine fs ++ cs.flatMap printChunk ++ lit "0" ++ crlf
        ++ ts.flatMap printField ++ crlf ++ rest
      = statusLine ++ 13 :: 10 :: (fs.flatMap printField ++ 13 :: 10 ::
          (cs.flatMap printChunk ++ 48 :: 13 :: 10 :: (ts.flatMap printField ++ 13 :: 10 :: rest))) := by
    have h0 : lit "0" = [48] := rfl
    simp [printHead, h0]
  have hlen : fs.length < (printHead statusLine fs ++ cs.flatMap printChunk ++ lit "0" ++ crlf
        ++ ts.flatMap printField ++ crlf ++ rest).length ∧
      cs.length < (printHead statusLine fs ++ cs.flatMap printChunk ++ lit "0" ++ crlf
        ++ ts.flatMap printField ++ crlf ++ rest).length ∧
      ts.length < (printHead statusLine fs ++ cs.flatMap printChunk ++ lit "0" ++ crlf
        ++ ts.flatMap printField ++ crlf ++ rest).length := by
    have hf := length_le_printFields fs
    have ht := length_le_printFields ts
    have hc := length_le_printChunks cs
    simp only [printHead, List.length_append, List.length_cons]
    omega
  obtain ⟨hfuel, hcfuel, htfuel⟩ := hlen
  rw [hbytes] at hfuel hcfuel htfuel ⊢
  have hline := takeLine_append hcr (fs.flatMap printField ++ 13 :: 10 ::
    (cs.flatMap printChunk ++ 48 :: 13 :: 10 :: (ts.flatMap printField ++ 13 :: 10 :: rest)))
  have hlower : (lit "chunked").map toLower = lit "chunked" := by decide
  simp only [parseResponse, hline, hs, if_true, takeFields_print hfs _ _ hfuel, hte,
    Option.map_some, hlower, takeChunks_print hcs _ _ hcfuel, takeFields_print hts _ _ htfuel]

end Sfcb.Lib.Http
