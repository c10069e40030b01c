import ScheduledDb.App.Discovery
import ScheduledDb.Core.Regex

/-!
# Error messages for clients

`sanitizeError` of `internal/api` removes addresses, paths and names from the message of an error,
by five replacements one after the other.  Three of them are regular expressions; a match of the one
for addresses is replaced only if `net.ParseIP` accepts its host.

`first_ipPattern` and `isMark_ipReplacement` say what happens at an IPv4 literal: the match is the
literal, unless its last number goes on, and it is replaced.

A text is the list of its characters; a byte that belongs to none is the character that Go puts in
its place, which no pattern asks for.
-/

namespace ScheduledDb

open Regex List

/-! ## The patterns -/

def isHexOrColon (c : Char) : Bool :=
  c.isDigit || ('a' ≤ c && c ≤ 'f') || ('A' ≤ c && c ≤ 'F') || c = ':'

/-- `\w` -/
def isWordChar (c : Char) : Bool := c.isAlphanum || c = '_'

/-- `[\s:]` -/
def isSpaceOrColon (c : Char) : Bool := c ∈ ['\t', '\n', '\x0c', '\r', ' ', ':']

def isPathChar (c : Char) : Bool := isWordChar c || c = '.' || c = '-'

def isTopologyChar (c : Char) : Bool := isWordChar c || c ∈ ['.', ':', '[', ']', '-']

/-- `\d` -/
def anyDigit : Regex Char := sym Char.isDigit

def oneChar (c : Char) : Regex Char := sym (· = c)

def phrase (s : String) : Regex Char := word s.toList

/-- `(?::\d+)?` -/
def portPattern : Regex Char := opt (seq (oneChar ':') (plus anyDigit))

/-- `\d{1,3}\.` -/
def octetPattern : Regex Char := seq (oneToThree anyDigit) (oneChar '.')

/-- `(?:\d{1,3}\.){3}\d{1,3}(?::\d+)?` -/
def ipv4Pattern : Regex Char :=
  seq octetPattern (seq octetPattern (seq octetPattern (seq (oneToThree anyDigit) portPattern)))

/-- `\[?[0-9a-fA-F:]+\]?(?::\d+)?` -/
def ipv6Pattern : Regex Char :=
  seq (opt (oneChar '[')) (seq (plus (sym isHexOrColon)) (seq (opt (oneChar ']')) portPattern))

def ipPattern : Regex Char := alt ipv4Pattern ipv6Pattern

/-- `(?:/[\w.-]+)+/?[\w.-]*\.(?:db|log|tmp|snap|dat|bin)` -/
def pathPattern : Regex Char :=
  seq (plus (seq (oneChar '/') (plus (sym isPathChar))))
    (seq (opt (oneChar '/'))
      (seq (star true (sym isPathChar))
        (seq (oneChar '.')
          (anyOf [phrase "db", phrase "log", phrase "tmp", phrase "snap", phrase "dat",
            phrase "bin"]))))

/-- `(?:raft|Raft)[\s:]+.*?(?:address|peer|…|candidate)[\s:]*[\w.:\[\]-]+` -/
def raftPattern : Regex Char :=
  seq (alt (phrase "raft") (phrase "Raft"))
    (seq (plus (sym isSpaceOrColon))
      (seq (star false (sym (· ≠ '\n')))
        (seq
          (anyOf [phrase "address", phrase "peer", phrase "server", phrase "node", phrase "leader",
            phrase "follower", phrase "candidate"])
          (seq (star true (sym isSpaceOrColon)) (plus (sym isTopologyChar))))))

/-! ## `net.ParseIP` -/

/-- A number up to 255 without leading zeros. -/
def isOctet (field : List Char) : Bool :=
  field ≠ [] && field.all Char.isDigit && (field.length = 1 || field.head? ≠ some '0') &&
    Nat.ofDigitChars 10 field 0 ≤ 255

def parseIPv4 (host : List Char) : Bool :=
  (host.splitOn '.').length = 4 && (host.splitOn '.').all isOctet

def isHexDigit (c : Char) : Bool := isHexOrColon c && c ≠ ':'

/-- The number of groups is right: eight, or fewer and `::` stands for the others. -/
def groupsFit (groups : ℕ) (ellipsis : Bool) : Bool := if groups < 8 then ellipsis else !ellipsis

/-- The groups of an IPv6 address, of which `left` may still come. -/
def parseGroups : ℕ → Bool → List Char → Bool
  | 0, _, _ => false
  | left + 1, ellipsis, s =>
    let groups := 8 - (left + 1)
    let group := s.takeWhile isHexDigit
    if group = [] ∨ 4 < group.length then false
    else
      match s.drop group.length with
      | [] => groupsFit (groups + 1) ellipsis
      | c :: rest =>
        if c = '.' then
          (ellipsis || groups = 6) && groups ≤ 6 && parseIPv4 s &&
            groupsFit (groups + 2) ellipsis
        else if c = ':' then
          if rest = [] then false
          else if rest.head? = some ':' then
            if ellipsis = true then false
            else if rest.tail = [] then groupsFit (groups + 1) true
            else parseGroups left true rest.tail
          else parseGroups left ellipsis rest
        else false

/-- Without a zone, which `net.ParseIP` does not accept. -/
def parseIPv6 (host : List Char) : Bool :=
  if '%' ∈ host then false
  else if host.take 2 = [':', ':'] then host.drop 2 = [] || parseGroups 8 true (host.drop 2)
  else parseGroups 8 false host

/-- `net.ParseIP(host) != nil`: the first dot or colon decides. -/
def parseIP (host : List Char) : Bool :=
  let mark := host.find? fun c => c = '.' || c = ':' || c = '%'
  if mark = some '.' then parseIPv4 host else if mark = some ':' then parseIPv6 host else false

/-! ## The replacements -/

/-- What is before the last colon, and what begins with it. -/
def lastColon : List Char → Option (List Char × List Char)
  | [] => none
  | c :: s =>
    match lastColon s with
    | some (host, port) => some (c :: host, port)
    | none => if c = ':' then some ([], c :: s) else none

/-- Host and port of a match.  A colon at its very front is no port's. -/
def splitPort (matched : List Char) : List Char × List Char :=
  match lastColon matched with
  | some (host, port) => if host = [] then (matched, []) else (host, port)
  | none => (matched, [])

def stripBrackets (host : List Char) : List Char :=
  if host.head? = some '[' ∧ host.getLast? = some ']' then host.tail.dropLast else host

/-- What a match of `ipPattern` is replaced by. -/
def ipReplacement (matched : List Char) : List Char :=
  let host := (splitPort matched).1
  let port := (splitPort matched).2
  if parseIP (stripBrackets host) = true then
    if port ≠ [] then "[addr]:<port>".toList else "[addr]".toList
  else matched

def clusterDomain : List Char := ".svc.cluster.local".toList

/-- The five replacements of `sanitizeError`, in their order. -/
def replaceAddresses : List Char → List Char := replaceAll ipPattern ipReplacement

def replacePaths : List Char → List Char := replaceAll pathPattern fun _ => "[path]".toList

def replaceRaft : List Char → List Char := replaceAll raftPattern fun _ => "[raft error]".toList

def replaceService : List Char → List Char :=
  replaceAll (phrase "scheduled-db") fun _ => "[service]".toList

def removeDomain : List Char → List Char := replaceAll (word clusterDomain) fun _ => []

/-- `sanitizeError`; `none` is `nil`. -/
def sanitizeError (err : Option String) : String :=
  match err with
  | none => ""
  | some msg =>
    let msg := replaceAddresses msg.toList
    let msg := replacePaths msg
    let msg := replaceRaft msg
    let msg := replaceService msg
    String.ofList (removeDomain msg)

/-! ## Literals -/

/-- A character next to which a literal stands by itself: no letter or digit of ASCII, no dot and no
underscore. -/
def IsDelimiter (c : Char) : Prop := ¬ (c.isAlphanum = true ∨ c = '.' ∨ c = '_')

instance (c : Char) : Decidable (IsDelimiter c) := inferInstanceAs (Decidable (¬ _))

/-- A text with an IPv4 literal that stands by itself. -/
def Exposes (t : List Char) : Prop :=
  ∃ p literal q, t = p ++ literal ++ q ∧ IsIPv4 literal ∧ (∀ c ∈ p.getLast?, IsDelimiter c) ∧
    ∀ c ∈ q.head?, IsDelimiter c

/-- The text begins with a digit. -/
def StartsWithDigit (t : List Char) : Prop := ∃ c ∈ t.head?, c.isDigit = true

/-- The decimal text of a number up to 255. -/
structure Octet (l : List Char) : Prop where
  digits : ∀ c ∈ l, c.isDigit = true
  nonempty : l ≠ []
  short : l.length ≤ 3
  valid : isOctet l = true

lemma octet_repr (n : Fin 256) : Octet (Nat.repr n).toList := by
  have hall : ∀ n : Fin 256,
      isOctet (Nat.toDigits 10 n) = true ∧ (Nat.toDigits 10 n).length ≤ 3 := by decide +kernel
  rw [← Nat.toString_eq_repr, Nat.toString_eq_ofList_toDigits, String.toList_ofList]
  obtain ⟨hvalid, hshort⟩ := hall n
  have hparts := hvalid
  simp only [isOctet, Bool.and_eq_true, decide_eq_true_eq] at hparts
  exact ⟨all_eq_true.mp hparts.1.1.2, hparts.1.1.1, hshort, hvalid⟩

variable {l a s : List Char}

/-- The four numbers of a literal. -/
lemma octets_of_isIPv4 (h : IsIPv4 l) :
    ∃ a b c d, l = a ++ '.' :: (b ++ '.' :: (c ++ '.' :: d)) ∧ Octet a ∧ Octet b ∧ Octet c ∧
      Octet d := by
  obtain ⟨a, b, c, d, rfl⟩ := h
  exact ⟨_, _, _, _, by simp, octet_repr a, octet_repr b, octet_repr c, octet_repr d⟩

lemma digit_or_dot_of_isIPv4 (h : IsIPv4 l) : ∀ c ∈ l, c.isDigit = true ∨ c = '.' := by
  obtain ⟨a, b, c, d, rfl, ha, hb, hc, hd⟩ := octets_of_isIPv4 h
  intro x hx
  simp only [mem_append, mem_cons] at hx
  rcases hx with hx | hx | hx | hx | hx | hx | hx
  · exact .inl (ha.digits x hx)
  · exact .inr hx
  · exact .inl (hb.digits x hx)
  · exact .inr hx
  · exact .inl (hc.digits x hx)
  · exact .inr hx
  · exact .inl (hd.digits x hx)

lemma exists_digit_cons (h : IsIPv4 l) : ∃ y l', l = y :: l' ∧ y.isDigit = true := by
  obtain ⟨a, b, c, d, rfl, ha, -⟩ := octets_of_isIPv4 h
  cases a with
  | nil => exact absurd rfl ha.nonempty
  | cons y a => exact ⟨y, _, rfl, ha.digits y mem_cons_self⟩

lemma bracket_notMem_of_isIPv4 {l : List Char} (h : IsIPv4 l) : '[' ∉ l := by
  intro hmem
  exact absurd (digit_or_dot_of_isIPv4 h '[' hmem) (by decide)

/-- **`net.ParseIP` accepts every IPv4 literal.** -/
lemma parseIP_of_isIPv4 (h : IsIPv4 l) : parseIP l = true := by
  obtain ⟨a, b, c, d, rfl, ha, hb, hc, hd⟩ := octets_of_isIPv4 h
  have hmark : ∀ {x : Char}, x.isDigit = true → (x = '.' || x = ':' || x = '%') = false := by
    intro x hx
    rw [Bool.eq_false_iff]
    intro hsome
    simp only [Bool.or_eq_true, decide_eq_true_eq] at hsome
    rcases hsome with (rfl | rfl) | rfl <;> exact absurd hx (by decide)
  have hfind : (a ++ '.' :: (b ++ '.' :: (c ++ '.' :: d))).find?
      (fun c => c = '.' || c = ':' || c = '%') = some '.' := by
    rw [find?_append, find?_eq_none.mpr fun x hx => by simp [hmark (ha.digits x hx)]]
    simp
  have hno : ∀ l ∈ [a, b, c, d], '.' ∉ l := by
    intro l hl hdot
    have hoctet : Octet l := by
      simp only [mem_cons, not_mem_nil, or_false] at hl
      rcases hl with rfl | rfl | rfl | rfl <;> assumption
    exact absurd (hoctet.digits '.' hdot) (by decide)
  have hsplit : (a ++ '.' :: (b ++ '.' :: (c ++ '.' :: d))).splitOn '.' = [a, b, c, d] := by
    rw [← splitOn_intercalate '.' hno (by simp)]
    simp [intercalate]
  simp [parseIP, hfind, parseIPv4, hsplit, ha.valid, hb.valid, hc.valid, hd.valid]

/-! ## The match at a literal -/

/-- One digit, two or three. -/
lemma Octet.cases (h : Octet a) :
    (∃ x, a = [x] ∧ x.isDigit = true) ∨
      (∃ x y, a = [x, y] ∧ x.isDigit = true ∧ y.isDigit = true) ∨
      ∃ x y z, a = [x, y, z] ∧ x.isDigit = true ∧ y.isDigit = true ∧ z.isDigit = true := by
  obtain ⟨hdigits, hne, hshort, -⟩ := h
  have hlength : a.length = 1 ∨ a.length = 2 ∨ a.length = 3 := by
    have hpos := length_pos_iff.mpr hne
    omega
  rcases hlength with h1 | h2 | h3
  · obtain ⟨x, rfl⟩ := length_eq_one_iff.mp h1
    exact .inl ⟨x, rfl, hdigits x (by simp)⟩
  · obtain ⟨x, y, rfl⟩ := length_eq_two.mp h2
    exact .inr (.inl ⟨x, y, rfl, hdigits x (by simp), hdigits y (by simp)⟩)
  · obtain ⟨x, y, z, rfl⟩ := length_eq_three.mp h3
    exact .inr (.inr ⟨x, y, z, rfl, hdigits x (by simp), hdigits y (by simp), hdigits z (by simp)⟩)

lemma not_isDigit_dot : '.'.isDigit = false := by decide

/-- An octet and a dot are matched in one way only. -/
lemma ends_octetPattern (ha : Octet a) (rest : List Char) :
    octetPattern.ends (a ++ '.' :: rest) = [rest] := by
  rcases ha.cases with ⟨x, rfl, hx⟩ | ⟨x, y, rfl, hx, hy⟩ | ⟨x, y, z, rfl, hx, hy, hz⟩
  · simp [octetPattern, oneToThree, opt, anyDigit, oneChar, ends, hx, not_isDigit_dot]
  · have hdot : y ≠ '.' := fun h => by simp [h, not_isDigit_dot] at hy
    simp [octetPattern, oneToThree, opt, anyDigit, oneChar, ends, hx, hy, hdot, not_isDigit_dot]
  · have hdot : y ≠ '.' := fun h => by simp [h, not_isDigit_dot] at hy
    have hdot' : z ≠ '.' := fun h => by simp [h, not_isDigit_dot] at hz
    simp [octetPattern, oneToThree, opt, anyDigit, oneChar, ends, hx, hy, hz, hdot, hdot']

lemma first_digit {x : Char} (hx : x.isDigit = true) (t : List Char) :
    anyDigit.first (x :: t) = some t := by
  simp [anyDigit, first, ends, hx]

/-- What an expression leaves of any text is behind some digits. -/
def TakesDigits (r : Regex Char) : Prop :=
  ∀ t, ∃ more u, t = more ++ u ∧ (∀ c ∈ more, c.isDigit = true) ∧ r.first t = some u

lemma takesDigits_opt : TakesDigits (opt anyDigit) := by
  intro t
  obtain ⟨u, hu⟩ := exists_first_opt anyDigit t
  obtain hmem | rfl := mem_ends_opt.mp (mem_of_first hu)
  · obtain ⟨c, rfl, hc⟩ := mem_ends_sym.mp hmem
    exact ⟨[c], u, rfl, by simpa using hc, hu⟩
  · exact ⟨[], u, rfl, by simp, hu⟩

lemma takesDigits_opt_seq {r : Regex Char} (hr : TakesDigits r) :
    TakesDigits (opt (seq anyDigit r)) := by
  intro t
  obtain ⟨u, hu⟩ := exists_first_opt (seq anyDigit r) t
  obtain hmem | rfl := mem_ends_opt.mp (mem_of_first hu)
  · obtain ⟨t', ht', -⟩ := mem_ends_seq.mp hmem
    obtain ⟨c, rfl, hc⟩ := mem_ends_sym.mp ht'
    obtain ⟨more, u', rfl, hmore, hu'⟩ := hr t'
    exact ⟨c :: more, u', rfl, forall_mem_cons.mpr ⟨hc, hmore⟩,
      first_alt_of_first (first_seq_of_first (first_digit hc _) hu')⟩
  · exact ⟨[], u, rfl, by simp, hu⟩

/-- The last number of an address takes more digits, if there are any. -/
lemma first_oneToThree {d : List Char} (hd : Octet d) (q : List Char) :
    ∃ more u, q = more ++ u ∧ (∀ c ∈ more, c.isDigit = true) ∧
      (oneToThree anyDigit).first (d ++ q) = some u := by
  rcases hd.cases with ⟨x, rfl, hx⟩ | ⟨x, y, rfl, hx, hy⟩ | ⟨x, y, z, rfl, hx, hy, hz⟩
  · obtain ⟨more, u, rfl, hmore, hu⟩ := takesDigits_opt_seq takesDigits_opt q
    exact ⟨more, u, rfl, hmore, first_seq_of_first (first_digit hx _) hu⟩
  · obtain ⟨more, u, rfl, hmore, hu⟩ := takesDigits_opt q
    exact ⟨more, u, rfl, hmore, first_seq_of_first (first_digit hx _)
      (first_alt_of_first (first_seq_of_first (first_digit hy _) hu))⟩
  · exact ⟨[], q, rfl, by simp, first_seq_of_first (first_digit hx _)
      (first_alt_of_first (first_seq_of_first (first_digit hy _)
        (first_alt_of_first (first_digit hz q))))⟩

/-- A port is a colon and digits. -/
def IsPort (port : List Char) : Prop := ∃ n, port = ':' :: n ∧ ∀ c ∈ n, c.isDigit = true

lemma port_of_mem_ends {u : List Char} (h : u ∈ portPattern.ends s) :
    ∃ port, s = port ++ u ∧ (port = [] ∨ IsPort port) := by
  obtain hmem | rfl := mem_ends_opt.mp h
  · obtain ⟨t, ht, hu⟩ := mem_ends_seq.mp hmem
    obtain ⟨c, rfl, hc⟩ := mem_ends_sym.mp ht
    obtain ⟨n, -, rfl, hn⟩ := mem_ends_plus_sym.mp hu
    obtain rfl : c = ':' := by simpa using hc
    exact ⟨':' :: n, rfl, .inr ⟨n, rfl, hn⟩⟩
  · exact ⟨[], rfl, .inl rfl⟩

/-- **The match at a literal**: it is the literal, what digits its last number can take, and the
port. -/
lemma first_ipPattern (hl : IsIPv4 l) (q : List Char) :
    ∃ more port u, q = more ++ port ++ u ∧ (∀ c ∈ more, c.isDigit = true) ∧
      (port = [] ∨ IsPort port) ∧ ipPattern.first (l ++ q) = some u := by
  obtain ⟨a, b, c, d, rfl, ha, hb, hc, hd⟩ := octets_of_isIPv4 hl
  obtain ⟨more, t, rfl, hmore, ht⟩ := first_oneToThree hd q
  obtain ⟨u, hu⟩ := exists_first_opt (seq (oneChar ':') (plus anyDigit)) t
  obtain ⟨port, rfl, hport⟩ := port_of_mem_ends (mem_of_first hu)
  refine ⟨more, port, u, by simp, hmore, hport, first_alt_of_first ?_⟩
  have hends : ipv4Pattern.ends (a ++ '.' :: (b ++ '.' :: (c ++ '.' :: d)) ++ (more ++ (port ++ u)))
      = (seq (oneToThree anyDigit) portPattern).ends (d ++ (more ++ (port ++ u))) := by
    simp only [append_assoc, cons_append]
    rw [ipv4Pattern, ends_seq_of_ends (ends_octetPattern ha _),
      ends_seq_of_ends (ends_octetPattern hb _), ends_seq_of_ends (ends_octetPattern hc _)]
  rw [first, hends]
  exact first_seq_of_first ht hu

/-! ## What becomes of a match -/

/-- Text that a match is replaced by: it begins with a bracket, and has neither digits nor dots. -/
structure IsMark (w : List Char) : Prop where
  bracket : w.head? = some '['
  plain : ∀ c ∈ w, c.isDigit = false ∧ c ≠ '.'

lemma isMark_path : IsMark "[path]".toList := ⟨rfl, by simp⟩

lemma isMark_raft : IsMark "[raft error]".toList := ⟨rfl, by simp⟩

lemma isMark_service : IsMark "[service]".toList := ⟨rfl, by simp⟩

lemma ipReplacement_cases (m : List Char) : ipReplacement m = m ∨ IsMark (ipReplacement m) := by
  simp only [ipReplacement]
  split_ifs
  · exact .inr ⟨rfl, by simp⟩
  · exact .inr ⟨rfl, by simp⟩
  · exact .inl rfl

lemma lastColon_of_notMem (h : ':' ∉ s) : lastColon s = none := by
  induction s with
  | nil => rfl
  | cons c s ih =>
    obtain ⟨hc, hs⟩ := not_or.mp (mt mem_cons.mpr h)
    rw [lastColon, ih hs]
    exact if_neg (Ne.symm hc)

lemma lastColon_append {host n : List Char} (hn : ':' ∉ n) :
    lastColon (host ++ ':' :: n) = some (host, ':' :: n) := by
  induction host with
  | nil =>
    rw [nil_append, lastColon, lastColon_of_notMem hn]
    exact if_pos rfl
  | cons c host ih => rw [cons_append, lastColon, ih]

/-- **A literal is replaced**, with its port. -/
lemma isMark_ipReplacement {port : List Char} (hl : IsIPv4 l) (hport : port = [] ∨ IsPort port) :
    IsMark (ipReplacement (l ++ port)) := by
  obtain ⟨y, l', hy, hdigit⟩ := exists_digit_cons hl
  have hcolon : ':' ∉ l := fun hmem => absurd (digit_or_dot_of_isIPv4 hl ':' hmem) (by decide)
  have hsplit : (splitPort (l ++ port)).1 = l := by
    rcases hport with rfl | ⟨n, rfl, hn⟩
    · rw [append_nil, splitPort, lastColon_of_notMem hcolon]
    · have hcolon' : ':' ∉ n := fun hmem => absurd (hn ':' hmem) (by decide)
      have hne : l ≠ [] := by simp [hy]
      rw [splitPort, lastColon_append hcolon']
      exact congrArg Prod.fst (if_neg hne)
  have hstrip : stripBrackets l = l := by
    refine if_neg fun h => ?_
    obtain rfl : y = '[' := by simpa [hy] using h.1
    exact absurd hdigit (by decide)
  simp only [ipReplacement, hsplit, hstrip, parseIP_of_isIPv4 hl, if_true]
  split_ifs
  · exact ⟨rfl, by simp⟩
  · exact ⟨rfl, by simp⟩

end ScheduledDb
