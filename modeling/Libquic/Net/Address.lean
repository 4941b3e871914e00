import Mathlib.Data.List.DropRight
import Libquic.Lib.Bencode
import Libquic.Net.Ip

/-!
# Addresses as text

`Address::to_string` and `Address::parse`. The port is what follows the last ':', found from the
end as the digits there; what is left must be an address, in square brackets if it is one of IPv6.
The text of the address itself is the business of `inet_ntop` and `inet_pton`.
-/
namespace Libquic

open Lib Lib.Bencode

/-- The C library's functions for the text of an address. -/
structure Inet where
  ntop4 : Ipv4 → List UInt8
  pton4 : List UInt8 → Option Ipv4
  ntop6 : Ipv6 → List UInt8
  pton6 : List UInt8 → Option Ipv6

inductive Host where
  | v4 (ip : Ipv4)
  | v6 (ip : Ipv6)
  deriving DecidableEq, Repr

structure Address where
  ip : Host
  port : UInt16
  dualStack : Bool := false
  deriving DecidableEq, Repr

def dot : UInt8 := 46

def openBracket : UInt8 := 91

def closeBracket : UInt8 := 93

/-- One of "0123456789." -/
def isIpv4Char (c : UInt8) : Bool := isDigit c || c == dot

/-- One of "0123456789abcdef:." -/
def isIpv6Char (c : UInt8) : Bool :=
  isDigit c || (97 ≤ c.toNat && c.toNat ≤ 102) || c == colon || c == dot

/-- What can be relied on: the text is read back, with the characters that belong to it. -/
structure Inet.Lawful (F : Inet) : Prop where
  pton4_ntop4 : ∀ ip, F.pton4 (F.ntop4 ip) = some ip
  pton6_ntop6 : ∀ ip, F.pton6 (F.ntop6 ip) = some ip
  ntop4_ne_nil : ∀ ip, F.ntop4 ip ≠ []
  ntop4_chars : ∀ ip, ∀ c ∈ F.ntop4 ip, isIpv4Char c = true
  ntop6_chars : ∀ ip, ∀ c ∈ F.ntop6 ip, isIpv6Char c = true
  ntop6_colon : ∀ ip, colon ∈ F.ntop6 ip

namespace Address

/-- `operator==`: the kind of address, the address and the port -/
def same (a b : Address) : Bool := a.ip == b.ip && a.port == b.port

def host (F : Inet) (a : Address) : List UInt8 :=
  match a.ip with
  | .v4 ip => F.ntop4 ip
  | .v6 ip => F.ntop6 ip

def toString (F : Inet) (a : Address) : List UInt8 :=
  match a.ip with
  | .v6 _ => openBracket :: a.host F ++ [closeBracket, colon] ++ decimal a.port.toNat
  | .v4 _ => a.host F ++ colon :: decimal a.port.toNat

/-- `Address(addr, port)`. `dualStack` tells whether the platform has sockets for both families. -/
def ofText (F : Inet) (dualStack : Bool) (addr : List UInt8) (port : UInt16) :
    Except String Address :=
  if dualStack && addr.isEmpty || addr.contains colon then
    if !addr.isEmpty then
      match F.pton6 addr with
      | some ip => .ok { ip := .v6 ip, port := port }
      | none => .error "Unable to parse IP address!"
    else .ok { ip := .v6 {}, port := port, dualStack := true }
  else
    if dualStack || !addr.isEmpty then
      match F.pton4 addr with
      | some ip => .ok { ip := .v4 ip, port := port }
      | none => .error "Unable to parse IP address!"
    else .ok { ip := .v4 {}, port := port }

/-- `parse_int` of a string of digits. -/
def parsePort (digits : List UInt8) : Option UInt16 :=
  if decimalValue digits < 2 ^ 16 then some (.ofNat (decimalValue digits)) else none

/-- The text in front of the port, and the port. The last character that is not a digit is the last
one of `front`. -/
def splitPort (addr : List UInt8) (defaultPort : Option UInt16) :
    Except String (List UInt8 × UInt16) :=
  let front := addr.rdropWhile isDigit
  let digits := addr.rtakeWhile isDigit
  if front.getLast? = some colon ∧ digits ≠ [] then
    match parsePort digits with
    | some port => .ok (front.dropLast, port)
    | none => .error "Invalid address: could not parse port"
  else
    match defaultPort with
    | some port => .ok (addr, port)
    | none => .error "Invalid address: no port was specified and there is no default"

def hadSqBrackets (addr : List UInt8) : Bool :=
  addr.head? == some openBracket && addr.getLast? == some closeBracket

/-- The checks of `parse` on the text between the brackets, if there are any. -/
def checkText (brackets : Bool) (addr : List UInt8) : Except String Unit :=
  if addr.any (!isIpv4Char ·) then
    if addr.any (!isIpv6Char ·) then
      .error "Invalid address: does not look like IPv4 or IPv6!"
    else if !brackets then
      .error "Invalid address: IPv6 addresses require [...] square brackets"
    else .ok ()
  else .ok ()

def parse (F : Inet) (dualStack : Bool) (addr : List UInt8)
    (defaultPort : Option UInt16) : Except String Address := do
  let split ← splitPort addr defaultPort
  let brackets := hadSqBrackets split.1
  let text := if brackets then split.1.tail.dropLast else split.1
  let _ ← checkText brackets text
  ofText F dualStack text split.2

/-! ## Splitting off the port -/

variable {F : Inet} {dualStack : Bool} {a b : Address} {text digits addr : List UInt8}
  {port : UInt16}

theorem not_isDigit_colon : ¬ isDigit colon = true := by decide

theorem splitPort_append (hdigits : ∀ c ∈ digits, isDigit c = true) (hne : digits ≠ [])
    (hport : parsePort digits = some port) (defaultPort : Option UInt16) :
    splitPort (text ++ colon :: digits) defaultPort = .ok (text, port) := by
  have hfront : (text ++ colon :: digits).rdropWhile isDigit = text ++ [colon] := by
    unfold List.rdropWhile
    rw [List.reverse_append, List.reverse_cons, List.append_assoc,
      List.dropWhile_append_of_pos (by simpa using hdigits), List.singleton_append,
      List.dropWhile_cons_of_neg not_isDigit_colon]
    simp
  have hback : (text ++ colon :: digits).rtakeWhile isDigit = digits := by
    unfold List.rtakeWhile
    rw [List.reverse_append, List.reverse_cons, List.append_assoc,
      List.takeWhile_append_of_pos (by simpa using hdigits), List.singleton_append,
      List.takeWhile_cons_of_neg not_isDigit_colon]
    simp
  simp [splitPort, hfront, hback, hne, hport]

/-- Without a default there has to be a port. -/
theorem splitPort_none (h : splitPort addr none = .ok (text, port)) :
    ∃ digits, addr = text ++ colon :: digits ∧ digits ≠ [] ∧ (∀ c ∈ digits, isDigit c = true) ∧
      port.toNat = decimalValue digits := by
  unfold splitPort at h
  dsimp only at h
  split_ifs at h with hcut
  obtain ⟨hlast, hne⟩ := hcut
  split at h
  next port' hport =>
    cases h
    refine ⟨addr.rtakeWhile isDigit, ?_, hne, fun c hc => List.mem_rtakeWhile_imp hc, ?_⟩
    · have hfront := List.dropLast_append_getLast? _ hlast
      have hwhole := List.rdropWhile_append_rtakeWhile (p := isDigit) (l := addr)
      rw [List.append_cons, hfront, hwhole]
    · unfold parsePort at hport
      split_ifs at hport with hlt
      cases hport
      simpa using hlt
  next => cases h

/-! ## Brackets -/

theorem hadSqBrackets_iff :
    hadSqBrackets text = true ↔ ∃ inner, text = openBracket :: inner ++ [closeBracket] := by
  rw [hadSqBrackets, Bool.and_eq_true, beq_iff_eq, beq_iff_eq]
  constructor
  · rintro ⟨hhead, hlast⟩
    obtain ⟨rest, rfl⟩ := List.head?_eq_some_iff.mp hhead
    have hne : rest ≠ [] := by
      rintro rfl
      exact absurd hlast (by decide)
    rw [List.getLast?_cons_of_ne_nil hne] at hlast
    exact ⟨rest.dropLast, by rw [List.cons_append, List.dropLast_append_getLast? _ hlast]⟩
  · rintro ⟨inner, rfl⟩
    exact ⟨rfl, List.getLast?_concat⟩

theorem hadSqBrackets_inner (inner : List UInt8) :
    (openBracket :: inner ++ [closeBracket]).tail.dropLast = inner := by
  simp

/-- A text without the brackets around it. -/
inductive Stripped : List UInt8 → List UInt8 → Prop where
  | brackets (inner : List UInt8) : Stripped (openBracket :: inner ++ [closeBracket]) inner
  | bare {text : List UInt8} :
      (∀ inner, text ≠ openBracket :: inner ++ [closeBracket]) → Stripped text text

theorem stripped (text : List UInt8) :
    Stripped text (if hadSqBrackets text then text.tail.dropLast else text) := by
  split_ifs with h
  · obtain ⟨inner, rfl⟩ := hadSqBrackets_iff.mp h
    rw [hadSqBrackets_inner]
    exact .brackets inner
  · exact .bare fun inner heq => h (hadSqBrackets_iff.mpr ⟨inner, heq⟩)

/-! ## The text of an address -/

theorem not_isIpv4Char_colon : ¬ isIpv4Char colon = true := by decide

theorem checkText_iff {brackets : Bool} :
    checkText brackets text = .ok () ↔
      (∀ c ∈ text, isIpv4Char c = true) ∨ brackets = true ∧ ∀ c ∈ text, isIpv6Char c = true := by
  unfold checkText
  by_cases h4 : ∀ c ∈ text, isIpv4Char c = true
  · rw [if_neg (by simpa using h4)]
    exact iff_of_true rfl (.inl h4)
  · rw [if_pos (by simpa using h4)]
    by_cases h6 : ∀ c ∈ text, isIpv6Char c = true
    · rw [if_neg (by simpa using h6)]
      cases brackets <;> simp_all
    · rw [if_pos (by simpa using h6)]
      simp_all

/-- What a text stands for: the any-address if it is empty, and otherwise an address of the kind
that its colons tell. -/
inductive Reads (F : Inet) (dualStack : Bool) : List UInt8 → Host → Prop where
  | any : Reads F dualStack [] (if dualStack then .v6 {} else .v4 {})
  | v6 {text : List UInt8} {ip : Ipv6} :
      colon ∈ text → F.pton6 text = some ip → Reads F dualStack text (.v6 ip)
  | v4 {text : List UInt8} {ip : Ipv4} :
      text ≠ [] → colon ∉ text → F.pton4 text = some ip → Reads F dualStack text (.v4 ip)

theorem ofText_reads (h : ofText F dualStack text port = .ok b) :
    b.port = port ∧ Reads F dualStack text b.ip := by
  unfold ofText at h
  split_ifs at h with hv6 hne hv4
  · split at h
    next ip hip =>
      cases h
      have hcolon : colon ∈ text := by
        simp only [Bool.not_eq_true', List.isEmpty_eq_false_iff] at hne
        simpa [hne] using hv6
      exact ⟨rfl, .v6 hcolon hip⟩
    next => cases h
  · cases h
    obtain rfl : text = [] := by simpa using hne
    obtain rfl : dualStack = true := by simpa using hv6
    exact ⟨rfl, .any⟩
  · split at h
    next ip hip =>
      cases h
      simp only [Bool.or_eq_true, Bool.and_eq_true, not_or, List.contains_iff_mem] at hv6
      refine ⟨rfl, .v4 ?_ hv6.2 hip⟩
      rintro rfl
      simp_all
    next => cases h
  · cases h
    simp only [Bool.or_eq_true, not_or] at hv4
    obtain rfl : text = [] := by simpa using hv4.2
    obtain rfl : dualStack = false := by simpa using hv4.1
    exact ⟨rfl, .any⟩

theorem ofText_v6 {ip : Ipv6} (hcolon : colon ∈ text) (hip : F.pton6 text = some ip) :
    ofText F dualStack text port = .ok { ip := .v6 ip, port := port } := by
  have hne : text ≠ [] := List.ne_nil_of_mem hcolon
  simp [ofText, hcolon, hne, hip]

theorem ofText_v4 {ip : Ipv4} (hne : text ≠ []) (hcolon : colon ∉ text)
    (hip : F.pton4 text = some ip) :
    ofText F dualStack text port = .ok { ip := .v4 ip, port := port } := by
  simp [ofText, hcolon, hne, hip]

/-! ## Parsing -/

theorem parsePort_decimal (port : UInt16) : parsePort (decimal port.toNat) = some port := by
  have hlt : port.toNat < 2 ^ 16 := port.toNat_lt
  rw [parsePort, decimalValue_decimal, if_pos hlt, UInt16.ofNat_toNat]

theorem splitPort_decimal (text : List UInt8) (port : UInt16) (defaultPort : Option UInt16) :
    splitPort (text ++ colon :: decimal port.toNat) defaultPort = .ok (text, port) :=
  splitPort_append (fun _ hc => isDigit_of_mem_decimal hc) (decimal_ne_nil _)
    (parsePort_decimal port) defaultPort

/-- What is parsed in the end is the text in front of the port, without its brackets. -/
theorem parse_eq {defaultPort : Option UInt16}
    (hsplit : splitPort addr defaultPort = .ok (text, port)) :
    parse F dualStack addr defaultPort = (do
      let _ ← checkText (hadSqBrackets text)
        (if hadSqBrackets text then text.tail.dropLast else text)
      ofText F dualStack (if hadSqBrackets text then text.tail.dropLast else text) port) := by
  rw [parse, hsplit, ok_bind]

/-- Text is read back, whether or not there is a default. -/
theorem parse_toString (hF : F.Lawful) (dualStack : Bool) (a : Address)
    (defaultPort : Option UInt16) :
    ∃ b, parse F dualStack (a.toString F) defaultPort = .ok b ∧ b.same a = true := by
  obtain ⟨ip | ip, port, dual⟩ := a
  · have hchars := hF.ntop4_chars ip
    have hcolon : colon ∉ F.ntop4 ip := fun hc => not_isIpv4Char_colon (hchars _ hc)
    have hbare : ¬ hadSqBrackets (F.ntop4 ip) = true := by
      intro h
      obtain ⟨inner, hinner⟩ := hadSqBrackets_iff.mp h
      have hopen : isIpv4Char openBracket = true := hchars _ (by simp [hinner])
      exact absurd hopen (by decide)
    refine ⟨{ ip := .v4 ip, port := port }, ?_, by simp [same]⟩
    change parse F dualStack (F.ntop4 ip ++ colon :: decimal port.toNat) defaultPort = _
    rw [parse_eq (splitPort_decimal _ _ _), if_neg hbare, checkText_iff.mpr (.inl hchars), ok_bind,
      ofText_v4 (hF.ntop4_ne_nil ip) hcolon (hF.pton4_ntop4 ip)]
  · have hchars := hF.ntop6_chars ip
    have hbrackets : hadSqBrackets (openBracket :: F.ntop6 ip ++ [closeBracket]) = true :=
      hadSqBrackets_iff.mpr ⟨_, rfl⟩
    have htext : openBracket :: F.ntop6 ip ++ [closeBracket, colon] ++ decimal port.toNat =
        (openBracket :: F.ntop6 ip ++ [closeBracket]) ++ colon :: decimal port.toNat := by simp
    refine ⟨{ ip := .v6 ip, port := port }, ?_, by simp [same]⟩
    change parse F dualStack
      (openBracket :: F.ntop6 ip ++ [closeBracket, colon] ++ decimal port.toNat) defaultPort = _
    rw [htext, parse_eq (splitPort_decimal _ _ _), if_pos hbrackets, hadSqBrackets_inner,
      checkText_iff.mpr (.inr ⟨hbrackets, hchars⟩), ok_bind,
      ofText_v6 (hF.ntop6_colon ip) (hF.pton6_ntop6 ip)]

/-- What is accepted without a default. -/
theorem parse_none (h : parse F dualStack addr none = .ok b) :
    ∃ text digits inner, addr = text ++ colon :: digits ∧ colon ∉ digits ∧ digits ≠ [] ∧
      (∀ c ∈ digits, isDigit c = true) ∧ b.port.toNat = decimalValue digits ∧
      Stripped text inner ∧ Reads F dualStack inner b.ip ∧
      (colon ∈ text → ∃ inner, text = openBracket :: inner ++ [closeBracket]) := by
  obtain ⟨⟨text, port⟩, hsplit, -⟩ := bind_ok h
  rw [parse_eq hsplit] at h
  obtain ⟨_, hcheck, htext⟩ := bind_ok h
  obtain ⟨digits, haddr, hne, hdigits, hport⟩ := splitPort_none hsplit
  obtain ⟨rfl, hreads⟩ := ofText_reads htext
  refine ⟨text, digits, _, haddr, fun hc => not_isDigit_colon (hdigits _ hc), hne, hdigits, hport,
    stripped text, hreads, fun hcolon => ?_⟩
  rw [← hadSqBrackets_iff]
  by_contra hbare
  rw [if_neg hbare] at hcheck
  rcases checkText_iff.mp hcheck with hchars | ⟨hbrackets, -⟩
  · exact not_isIpv4Char_colon (hchars _ hcolon)
  · exact hbare hbrackets

/-- An address is what its text is parsed as. Whatever is accepted without a default has its port
behind the last ':', and in front of that the text of its address, which has to be in brackets if
there are colons in it. -/
theorem parse_text (F : Inet) (dualStack : Bool) :
    (F.Lawful → ∀ a : Address, ∃ b,
      parse F dualStack (a.toString F) none = .ok b ∧ b.same a = true) ∧
    ∀ addr b, parse F dualStack addr none = .ok b →
      ∃ text digits inner, addr = text ++ colon :: digits ∧ colon ∉ digits ∧ digits ≠ [] ∧
        (∀ c ∈ digits, isDigit c = true) ∧ b.port.toNat = decimalValue digits ∧
        Stripped text inner ∧ Reads F dualStack inner b.ip ∧
        (colon ∈ text → ∃ inner, text = openBracket :: inner ++ [closeBracket]) :=
  ⟨fun hF a => parse_toString hF dualStack a none, fun _ _ => parse_none⟩

end Address

/-! ## A format that obeys the laws -/

namespace Inet

/-- Four numbers with dots between them. -/
def dotted (ip : Ipv4) : List UInt8 :=
  [dot].intercalate [decimal (ip.byte 0).toNat, decimal (ip.byte 1).toNat,
    decimal (ip.byte 2).toNat, decimal (ip.byte 3).toNat]

/-- Without zeros in front. -/
def readByte (text : List UInt8) : Option (BitVec 8) :=
  if decimal (decimalValue text) = text ∧ decimalValue text < 256 then
    some (.ofNat 8 (decimalValue text))
  else none

def readDotted (text : List UInt8) : Option Ipv4 :=
  match text.splitOn dot with
  | [a, b, c, d] => do
    let a ← readByte a
    let b ← readByte b
    let c ← readByte c
    let d ← readByte d
    some (.ofBytes a b c d)
  | _ => none

theorem readByte_decimal (b : BitVec 8) : readByte (decimal b.toNat) = some b := by
  rw [readByte, decimalValue_decimal, if_pos ⟨rfl, b.isLt⟩]
  simp

theorem readDotted_dotted (ip : Ipv4) : readDotted (dotted ip) = some ip := by
  have hsplit : (dotted ip).splitOn dot = [decimal (ip.byte 0).toNat, decimal (ip.byte 1).toNat,
      decimal (ip.byte 2).toNat, decimal (ip.byte 3).toNat] := by
    refine List.splitOn_intercalate _ (fun l hl hdot => ?_) (by simp)
    have hdigit : isDigit dot = true := by
      simp only [List.mem_cons, List.not_mem_nil, or_false] at hl
      rcases hl with rfl | rfl | rfl | rfl <;> exact isDigit_of_mem_decimal hdot
    exact absurd hdigit (by decide)
  simp [readDotted, hsplit, readByte_decimal, Ipv4.ofBytes_byte]

def hexChar (d : Nat) : UInt8 := if d < 10 then digitChar d else .ofNat (87 + d)

def hexValue (c : UInt8) : Option Nat :=
  if isDigit c then some (digitValue c)
  else if 97 ≤ c.toNat ∧ c.toNat ≤ 102 then some (c.toNat - 87)
  else none

def hexWord (w : BitVec 16) : List UInt8 :=
  [hexChar (w.toNat / 4096), hexChar (w.toNat / 256 % 16), hexChar (w.toNat / 16 % 16),
    hexChar (w.toNat % 16)]

def readWord (text : List UInt8) : Option (BitVec 16) :=
  match text with
  | [a, b, c, d] => do
    let a ← hexValue a
    let b ← hexValue b
    let c ← hexValue c
    let d ← hexValue d
    some (.ofNat 16 (a * 4096 + b * 256 + c * 16 + d))
  | _ => none

/-- Eight groups of four digits, without leaving out zeros. -/
def groups (ip : Ipv6) : List (List UInt8) :=
  [hexWord (Ipv6.word ip.hi 0), hexWord (Ipv6.word ip.hi 1), hexWord (Ipv6.word ip.hi 2),
    hexWord (Ipv6.word ip.hi 3), hexWord (Ipv6.word ip.lo 0), hexWord (Ipv6.word ip.lo 1),
    hexWord (Ipv6.word ip.lo 2), hexWord (Ipv6.word ip.lo 3)]

def readExpanded (text : List UInt8) : Option Ipv6 :=
  match (text.splitOn colon).mapM readWord with
  | some [a, b, c, d, e, f, g, h] => some (.ofWords a b c d e f g h)
  | _ => none

theorem hexChar_spec : ∀ d < 16, hexValue (hexChar d) = some d ∧ isIpv6Char (hexChar d) = true ∧
    hexChar d ≠ colon := by decide

theorem readWord_hexWord (w : BitVec 16) : readWord (hexWord w) = some w := by
  have hlt := w.isLt
  have ha := (hexChar_spec (w.toNat / 4096) (by omega)).1
  have hb := (hexChar_spec (w.toNat / 256 % 16) (by omega)).1
  have hc := (hexChar_spec (w.toNat / 16 % 16) (by omega)).1
  have hd := (hexChar_spec (w.toNat % 16) (by omega)).1
  have hsum : w.toNat / 4096 * 4096 + w.toNat / 256 % 16 * 256 + w.toNat / 16 % 16 * 16 +
      w.toNat % 16 = w.toNat := by omega
  simp [readWord, hexWord, ha, hb, hc, hd, hsum]

theorem hexWord_chars {w : BitVec 16} {c : UInt8} (h : c ∈ hexWord w) :
    isIpv6Char c = true ∧ c ≠ colon := by
  have hlt := w.isLt
  simp only [hexWord, List.mem_cons, List.not_mem_nil, or_false] at h
  rcases h with rfl | rfl | rfl | rfl
  · exact (hexChar_spec _ (by omega)).2
  · exact (hexChar_spec _ (by omega)).2
  · exact (hexChar_spec _ (by omega)).2
  · exact (hexChar_spec _ (by omega)).2

theorem groups_chars {ip : Ipv6} {l : List UInt8} (hl : l ∈ groups ip) {c : UInt8} (hc : c ∈ l) :
    isIpv6Char c = true ∧ c ≠ colon := by
  simp only [groups, List.mem_cons, List.not_mem_nil, or_false] at hl
  rcases hl with rfl | rfl | rfl | rfl | rfl | rfl | rfl | rfl <;> exact hexWord_chars hc

theorem readExpanded_groups (ip : Ipv6) :
    readExpanded ([colon].intercalate (groups ip)) = some ip := by
  have hsplit : ([colon].intercalate (groups ip)).splitOn colon = groups ip :=
    List.splitOn_intercalate _ (fun l hl hc => (groups_chars hl hc).2 rfl) (by simp [groups])
  rw [readExpanded, hsplit]
  simp [groups, readWord_hexWord, Ipv6.ofWords_word]

/-- Numbers are written out in full. -/
def expanded : Inet where
  ntop4 := dotted
  pton4 := readDotted
  ntop6 ip := [colon].intercalate (groups ip)
  pton6 := readExpanded

theorem mem_intercalate {sep c : UInt8} {ls : List (List UInt8)}
    (h : c ∈ [sep].intercalate ls) : c = sep ∨ ∃ l ∈ ls, c ∈ l := by
  induction ls with
  | nil => simp [List.intercalate] at h
  | cons l rest ih =>
    cases rest with
    | nil => exact .inr ⟨l, by simp, by simpa [List.intercalate] using h⟩
    | cons next rest =>
      rw [List.intercalate_cons_cons] at h
      grind

theorem lawful_expanded : expanded.Lawful where
  pton4_ntop4 := readDotted_dotted
  pton6_ntop6 := readExpanded_groups
  ntop4_ne_nil ip := by
    simp [expanded, dotted, List.intercalate, decimal_ne_nil]
  ntop4_chars ip c hc := by
    rcases mem_intercalate hc with rfl | ⟨l, hl, hc⟩
    · decide
    · have hdigit : isDigit c = true := by
        simp only [List.mem_cons, List.not_mem_nil, or_false] at hl
        rcases hl with rfl | rfl | rfl | rfl <;> exact isDigit_of_mem_decimal hc
      simp [isIpv4Char, hdigit]
  ntop6_chars ip c hc := by
    rcases mem_intercalate hc with rfl | ⟨l, hl, hc⟩
    · decide
    · exact (groups_chars hl hc).1
  ntop6_colon ip := by
    simp [expanded, groups, List.intercalate]

end Inet

/-- [2001:1db8:1111:2222:3333:4444:5555:6666]:443 there and back, and "1.2.3.4:80". -/
theorem Address.parse_text_expanded :
    (∃ b, parse .expanded true (toString .expanded
        ⟨.v6 ⟨0x20011db811112222, 0x3333444455556666⟩, 443, false⟩) none = .ok b ∧
      b.same ⟨.v6 ⟨0x20011db811112222, 0x3333444455556666⟩, 443, false⟩ = true) ∧
    ∃ text digits inner, [49, 46, 50, 46, 51, 46, 52, 58, 56, 48] = text ++ colon :: digits ∧
      decimalValue digits = 80 ∧ Stripped text inner ∧
      Reads .expanded true inner (.v4 (.ofBytes 1 2 3 4)) := by
  have hparse : parse .expanded true [49, 46, 50, 46, 51, 46, 52, 58, 56, 48] none =
      .ok ⟨.v4 (.ofBytes 1 2 3 4), 80, false⟩ := by decide
  obtain ⟨hround, haccept⟩ := parse_text .expanded true
  obtain ⟨text, digits, inner, haddr, -, -, -, hport, hstripped, hreads, -⟩ := haccept _ _ hparse
  exact ⟨hround Inet.lawful_expanded _, text, digits, inner, haddr, hport.symm, hstripped, hreads⟩

end Libquic
