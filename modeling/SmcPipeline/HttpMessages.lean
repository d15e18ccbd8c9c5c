import Mathlib.Data.List.Basic
import Mathlib.Order.Lattice

/-!
# Messages over a connection

A response of HTTP/1.1: a status line, a line for each header field, an empty line, and as many
bytes of a body as `Content-Length` says. What is written for a message is read back as that
message, and the reader stops where it ends.
-/

namespace SmcPipeline.HttpMessages

structure Message where
  status : ℕ
  reason : String
  headers : List (String × String)
  body : List UInt8
deriving DecidableEq

/-- ASCII, with `?` for any other character. -/
def encodeAscii (text : List Char) : List UInt8 :=
  text.map fun c => if c.toNat < 128 then UInt8.ofNat c.toNat else 63

def crlf : List UInt8 := [13, 10]

def statusLine (m : Message) : List Char :=
  "HTTP/1.1 ".toList ++ Nat.toDigits 10 m.status ++ ' ' :: m.reason.toList

def fieldLine (field : String × String) : List Char :=
  field.1.toList ++ ':' :: ' ' :: field.2.toList

def headLines (m : Message) : List (List Char) := statusLine m :: m.headers.map fieldLine

def render (m : Message) : List UInt8 :=
  ((headLines m).flatMap fun line => encodeAscii line ++ crlf) ++ crlf ++ m.body

def decodeAscii (bytes : List UInt8) : List Char := bytes.map fun b => Char.ofNat b.toNat

/-- The lines up to the first empty one, and the bytes after it. -/
def readLines : List UInt8 → List UInt8 → Option (List (List UInt8) × List UInt8)
  | line, 13 :: 10 :: rest =>
    if line = [] then some ([], rest)
    else (readLines [] rest).map fun out => (line :: out.1, out.2)
  | line, b :: rest => readLines (line ++ [b]) rest
  | _, [] => none

/-- The text before a character, and the text after it. -/
def cut (sep : Char) (text : List Char) : List Char × List Char :=
  (text.takeWhile (· ≠ sep), (text.dropWhile (· ≠ sep)).tail)

def readNumber (text : List Char) : Option ℕ :=
  if text ≠ [] ∧ text.all Char.isDigit then some (Nat.ofDigitChars 10 text 0) else none

def readField (line : List Char) : String × String :=
  (String.ofList (cut ':' line).1, String.ofList ((cut ':' line).2.dropWhile (· = ' ')))

/-- The first message of a stream, and the bytes after it. -/
def read (bytes : List UInt8) : Option (Message × List UInt8) :=
  match readLines [] bytes with
  | some (first :: fields, rest) =>
    let afterVersion := cut ' ' (decodeAscii first)
    let code := cut ' ' afterVersion.2
    let headers := fields.map fun line => readField (decodeAscii line)
    match readNumber code.1,
      (headers.lookup "Content-Length").bind fun value => readNumber value.toList with
    | some status, some length =>
      if afterVersion.1 = "HTTP/1.1".toList ∧ length ≤ rest.length then
        some (⟨status, String.ofList code.2, headers, rest.take length⟩, rest.drop length)
      else none
    | _, _ => none
  | _ => none

/-- Printable ASCII. -/
def Plain (text : List Char) : Prop := ∀ c ∈ text, ' ' ≤ c ∧ c ≤ '~'

instance (text : List Char) : Decidable (Plain text) := List.decidableBAll _ _

/-- A name without a colon, and a value that does not begin with a space. -/
structure PlainField (field : String × String) : Prop where
  name : Plain field.1.toList
  value : Plain field.2.toList
  colon : ':' ∉ field.1.toList
  space : field.2.toList.head? ≠ some ' '

/-- The texts are plain, and `Content-Length` tells the length of the body. -/
structure Sendable (m : Message) : Prop where
  reason : Plain m.reason.toList
  fields : ∀ field ∈ m.headers, PlainField field
  length : m.headers.lookup "Content-Length" = some m.body.length.repr

theorem plain_append {a b : List Char} : Plain (a ++ b) ↔ Plain a ∧ Plain b :=
  List.forall_mem_append

theorem plain_cons {c : Char} {text : List Char} :
    Plain (c :: text) ↔ (' ' ≤ c ∧ c ≤ '~') ∧ Plain text := List.forall_mem_cons

theorem plain_digits (n : ℕ) : Plain (Nat.toDigits 10 n) := by
  intro c hc
  have hdigit := Nat.isDigit_of_mem_toDigits (by decide) (by decide) hc
  simp only [Char.isDigit, Bool.and_eq_true, decide_eq_true_eq] at hdigit
  have hzero : ' '.val ≤ '0'.val := by decide
  have hnine : '9'.val ≤ '~'.val := by decide
  exact ⟨UInt32.le_trans hzero hdigit.1, UInt32.le_trans hdigit.2 hnine⟩

theorem toNat_lt_of_plain {text : List Char} (h : Plain text) {c : Char} (hc : c ∈ text) :
    32 ≤ c.toNat ∧ c.toNat < 127 := by
  obtain ⟨hlow, hhigh⟩ := h c hc
  have hlow : (' ' : Char).toNat ≤ c.toNat := hlow
  have hhigh : c.toNat ≤ ('~' : Char).toNat := hhigh
  have htilde : ('~' : Char).toNat = 126 := rfl
  have hspace : (' ' : Char).toNat = 32 := rfl
  omega

theorem toNat_ofNat {n : ℕ} (h : n < 128) : (UInt8.ofNat n).toNat = n :=
  UInt8.toNat_ofNat_of_lt' (h.trans (by decide))

theorem decode_encode {text : List Char} (h : Plain text) :
    decodeAscii (encodeAscii text) = text := by
  unfold decodeAscii encodeAscii
  rw [List.map_map]
  conv_rhs => rw [← List.map_id text]
  refine List.map_congr_left fun c hc => ?_
  obtain ⟨-, hlt⟩ := toNat_lt_of_plain h hc
  rw [Function.comp_apply, if_pos (by omega), toNat_ofNat (by omega), Char.ofNat_toNat]
  rfl

theorem cr_notMem_encode {text : List Char} (h : Plain text) : 13 ∉ encodeAscii text := by
  intro hmem
  obtain ⟨c, hc, heq⟩ := List.mem_map.mp hmem
  obtain ⟨hge, hlt⟩ := toNat_lt_of_plain h hc
  rw [if_pos (by omega)] at heq
  have hnat : (UInt8.ofNat c.toNat).toNat = 13 := congrArg UInt8.toNat heq
  rw [toNat_ofNat (by omega)] at hnat
  omega

theorem cut_append {sep : Char} {a : List Char} (h : sep ∉ a) (b : List Char) :
    cut sep (a ++ sep :: b) = (a, b) := by
  have hne : ∀ c ∈ a, decide (c ≠ sep) = true := fun c hc =>
    decide_eq_true fun heq => h (heq ▸ hc)
  unfold cut
  rw [List.takeWhile_append_of_pos hne, List.dropWhile_append_of_pos hne,
    List.takeWhile_cons_of_neg (by simp), List.dropWhile_cons_of_neg (by simp), List.append_nil]
  exact rfl

theorem readNumber_digits (n : ℕ) : readNumber (Nat.toDigits 10 n) = some n := by
  unfold readNumber
  have hdigits : (Nat.toDigits 10 n).all Char.isDigit = true :=
    List.all_eq_true.mpr fun c hc => Nat.isDigit_of_mem_toDigits (by decide) (by decide) hc
  rw [if_pos ⟨Nat.toDigits_ne_nil, hdigits⟩, Nat.ofDigitChars_ten_toDigits]

theorem readField_fieldLine {field : String × String} (h : PlainField field) :
    readField (fieldLine field) = field := by
  have hvalue : (' ' :: field.2.toList).dropWhile (· = ' ') = field.2.toList := by
    rw [List.dropWhile_cons_of_pos (by simp)]
    cases htext : field.2.toList with
    | nil => rfl
    | cons c text =>
        have hc : c ≠ ' ' := fun heq => h.space (by rw [htext, heq]; rfl)
        rw [List.dropWhile_cons_of_neg (by simpa using hc)]
  unfold readField fieldLine
  rw [cut_append h.colon, hvalue, String.ofList_toList, String.ofList_toList]

theorem statusLine_eq (m : Message) :
    statusLine m = ("HTTP/1.1 " ++ toString m.status ++ " " ++ m.reason).toList := by
  rw [String.toList_append, String.toList_append, String.toList_append, Nat.toString_eq_repr,
    Nat.toList_repr, List.append_assoc]
  rfl

theorem fieldLine_eq (name value : String) :
    fieldLine (name, value) = (name ++ ": " ++ value).toList := by
  rw [String.toList_append, String.toList_append, List.append_assoc]
  rfl

theorem readLines_line {line bytes : List UInt8} (h : 13 ∉ bytes) (hne : line ++ bytes ≠ [])
    (rest : List UInt8) :
    readLines line (bytes ++ (crlf ++ rest)) =
      (readLines [] rest).map fun out => ((line ++ bytes) :: out.1, out.2) := by
  induction bytes generalizing line with
  | nil =>
      rw [List.append_nil] at hne ⊢
      simp only [crlf, List.nil_append, List.cons_append]
      rw [readLines, if_neg hne]
  | cons b bytes ih =>
      rw [List.mem_cons, not_or] at h
      rw [List.cons_append, readLines]
      · rw [ih h.2 (by simp), List.append_assoc, List.singleton_append]
      · rintro rest' rfl
        exact absurd rfl h.1

theorem readLines_lines {lines : List (List Char)} (hplain : ∀ line ∈ lines, Plain line)
    (hne : ∀ line ∈ lines, line ≠ []) (rest : List UInt8) :
    readLines [] ((lines.flatMap fun line => encodeAscii line ++ crlf) ++ (crlf ++ rest)) =
      some (lines.map encodeAscii, rest) := by
  induction lines with
  | nil => rfl
  | cons line lines ih =>
      obtain ⟨hline, hlines⟩ := List.forall_mem_cons.mp hplain
      obtain ⟨hline', hlines'⟩ := List.forall_mem_cons.mp hne
      rw [List.flatMap_cons, List.append_assoc, List.append_assoc,
        readLines_line (cr_notMem_encode hline) (by simpa [encodeAscii] using hline'),
        ih hlines hlines', Option.map_some, List.nil_append, List.map_cons]

theorem plain_statusLine {m : Message} (h : Sendable m) : Plain (statusLine m) := by
  unfold statusLine
  rw [plain_append, plain_append, plain_cons]
  exact ⟨⟨by decide, plain_digits m.status⟩, by decide, h.reason⟩

theorem plain_fieldLine {field : String × String} (h : PlainField field) :
    Plain (fieldLine field) := by
  unfold fieldLine
  rw [plain_append, plain_cons, plain_cons]
  exact ⟨h.name, by decide, by decide, h.value⟩

/-- What is written for a message is read back, and the reader stops at its last byte. -/
theorem read_render {m : Message} (h : Sendable m) (rest : List UInt8) :
    read (render m ++ rest) = some (m, rest) := by
  have hlines : readLines [] (render m ++ rest) =
      some ((headLines m).map encodeAscii, m.body ++ rest) := by
    unfold render
    rw [List.append_assoc, List.append_assoc]
    refine readLines_lines ?_ ?_ _
    · refine List.forall_mem_cons.mpr ⟨plain_statusLine h, List.forall_mem_map.mpr ?_⟩
      exact fun field hfield => plain_fieldLine (h.fields field hfield)
    · refine List.forall_mem_cons.mpr ⟨?_, List.forall_mem_map.mpr fun field _ => ?_⟩
      · exact List.append_ne_nil_of_right_ne_nil _ (List.cons_ne_nil _ _)
      · exact List.append_ne_nil_of_right_ne_nil _ (List.cons_ne_nil _ _)
  have hversion : cut ' ' (decodeAscii (encodeAscii (statusLine m))) =
      ("HTTP/1.1".toList, Nat.toDigits 10 m.status ++ ' ' :: m.reason.toList) := by
    rw [decode_encode (plain_statusLine h)]
    have hword : ' ' ∉ "HTTP/1.1".toList := by decide
    exact cut_append hword (Nat.toDigits 10 m.status ++ ' ' :: m.reason.toList)
  have hcode : cut ' ' (Nat.toDigits 10 m.status ++ ' ' :: m.reason.toList) =
      (Nat.toDigits 10 m.status, m.reason.toList) := by
    refine cut_append (fun hmem => ?_) _
    have hdigit := Nat.isDigit_of_mem_toDigits (by decide) (by decide) hmem
    cases hdigit
  have hfields : ((m.headers.map fieldLine).map encodeAscii).map
      (fun line => readField (decodeAscii line)) = m.headers := by
    rw [List.map_map, List.map_map]
    conv_rhs => rw [← List.map_id m.headers]
    refine List.map_congr_left fun field hfield => ?_
    have hplain := h.fields field hfield
    rw [Function.comp_apply, Function.comp_apply, decode_encode (plain_fieldLine hplain),
      readField_fieldLine hplain, id]
  have hlength : (m.headers.lookup "Content-Length").bind (fun value => readNumber value.toList) =
      some m.body.length := by
    rw [h.length, Option.bind_some, Nat.toList_repr, readNumber_digits]
  unfold read
  rw [hlines]
  simp only [headLines, List.map_cons, hversion, hcode, hfields, hlength, readNumber_digits]
  rw [if_pos ⟨trivial, by simp⟩]
  simp

end SmcPipeline.HttpMessages
