import Mathlib.Data.List.TakeWhile
import NetifyAgent.DnsHintCache

/-! Saving and loading `ndDNSHintCache`. The writer puts a host name between
quotes as it is, the reader takes names of a scan set and stops at the first line
it cannot read. A file comes back whole exactly when every name is of that set. -/
namespace NetifyAgent

/-- `ndGC.dhc_save`. -/
inductive DhcSave where
  | disabled
  | persistent
  | volatile
  deriving DecidableEq, Repr

/-- What the cache's file holds under the state path of each mode. -/
abbrev DhcFiles := DhcSave → Option (List UInt8)

namespace DnsHintCache

/-- `SHA1_DIGEST_LENGTH`. -/
def digestLength : Nat := 20

/-! ## Writing -/

/-- A digit of `%x`. -/
def hexDigit (n : Nat) : UInt8 := if n < 10 then UInt8.ofNat (48 + n) else UInt8.ofNat (87 + n)

/-- `nd_sha1_to_string`. -/
def sha1ToString (digest : List UInt8) : List UInt8 :=
  (digest.take digestLength).flatMap fun b => [hexDigit (b.toNat / 16), hexDigit (b.toNat % 16)]

/-- The digits of a number of at most so many digits. -/
def decimal : Nat → Nat → List UInt8
  | 0, _ => []
  | digits + 1, n =>
    if n < 10 then [UInt8.ofNat (48 + n)] else decimal digits (n / 10) ++ [UInt8.ofNat (48 + n % 10)]

/-- `%u` of a difference of times. -/
def printTtl (deadline now : Nat) : List UInt8 :=
  decimal 10 (((deadline : Int) - now) % 4294967296).toNat

/-- A string up to its terminating zero. -/
def cStr (s : List UInt8) : List UInt8 := s.takeWhile (· ≠ 0)

def header : List UInt8 :=
  "\"host\",\"addr_digest\",\"ttl\"\n".toList.map fun c => UInt8.ofNat c.toNat

/-- The line of an entry. -/
def line (now : Nat) (digest : List UInt8) (ar : DnsTuple) : List UInt8 :=
  34 :: (cStr ar.hostname ++ 34 :: 44 :: (sha1ToString digest ++
    44 :: (printTtl ar.deadline now ++ [10])))

/-- `ndDNSHintCache::Save`, for a file that can be opened. -/
def save (now : Nat) (dhcSave : DhcSave) (files : DhcFiles) (c : DnsHintCache) : DhcFiles :=
  match dhcSave with
  | .disabled => files
  | mode => Function.update files mode
      (some (header ++ c.mapAr.entries.flatMap fun e => line now e.1 e.2))

/-! ## Reading -/

/-- `isspace`. -/
def isSpaceByte (b : UInt8) : Bool := b == 32 || (9 ≤ b && b ≤ 13)

/-- The scan set `[0-9A-z.-]`. -/
def nameByte (b : UInt8) : Bool :=
  (48 ≤ b && b ≤ 57) || (65 ≤ b && b ≤ 122) || b == 46 || b == 45

def digitByte (b : UInt8) : Bool := 48 ≤ b && b ≤ 57

/-- The scan set `[0-9A-Fa-f]`. -/
def hexByte (b : UInt8) : Bool := digitByte b || (65 ≤ b && b ≤ 70) || (97 ≤ b && b ≤ 102)

/-- White space in a format. -/
def skipSpace (file : List UInt8) : List UInt8 := file.dropWhile isSpaceByte

/-- A byte of a format that stands for itself. -/
def literal (b : UInt8) : List UInt8 → Option (List UInt8)
  | [] => none
  | c :: rest => if c = b then some rest else none

/-- `%m[...]`: the longest run of a scan set, which must not be empty. -/
def scanSet (set : UInt8 → Bool) (file : List UInt8) : Option (List UInt8 × List UInt8) :=
  if file.takeWhile set = [] then none else some (file.takeWhile set, file.dropWhile set)

/-- `%ld`. Its value is not looked at. -/
def scanLong (file : List UInt8) : Option (List UInt8) :=
  let file := skipSpace file
  let file := match file with
    | b :: rest => if b = 43 ∨ b = 45 then rest else file
    | [] => []
  (scanSet digitByte file).map Prod.snd

/-- One `fscanf` of three conversions: host, digest and what is left. `none` for
fewer than three. -/
def scanEntry (file : List UInt8) : Option ((List UInt8 × List UInt8) × List UInt8) := do
  let file ← literal 34 (skipSpace file)
  let (host, file) ← scanSet nameByte file
  let file ← literal 34 file
  let file ← literal 44 (skipSpace file)
  let (digest, file) ← scanSet hexByte (skipSpace file)
  let file ← literal 44 (skipSpace file)
  let file ← scanLong file
  return ((host, digest), skipSpace file)

/-- The value of a hex digit. -/
def hexValue (b : UInt8) : Nat :=
  if digitByte b then b.toNat - 48 else if b ≤ 70 then b.toNat - 55 else b.toNat - 87

/-- The loop of `%2hhx` over a string of hex digits. It goes on two bytes at a
time: `none` is a read past the terminating zero, after an odd digit. -/
def scanDigest : Nat → List UInt8 → Option (List UInt8)
  | 0, _ => some []
  | _ + 1, [] => some []
  | n + 1, [a] => if n = 0 then some [UInt8.ofNat (hexValue a)] else none
  | n + 1, a :: b :: p =>
    (scanDigest n p).map fun rest => UInt8.ofNat (hexValue a * 16 + hexValue b) :: rest

/-- `Insert(digest, hostname)`. -/
def insertDigest (s : Surroundings) (now : Nat) (digest hostname : List UInt8)
    (c : DnsHintCache) : Option DnsHintCache :=
  (scanDigest digestLength digest).map fun bytes =>
    if bytes.length ≠ digestLength ∨ (c.mapAr.lookup bytes).isSome then c
    else { c with mapAr := c.mapAr.insert bytes ⟨now + s.ttlDnsEntry, hostname⟩ }

/-- The loop over the lines, which ends at the end of the file and at the first
line that cannot be read. Every line has a byte, so that the length of the file
is enough. -/
def loadEntries (s : Surroundings) (now : Nat) : Nat → List UInt8 → DnsHintCache →
    Option DnsHintCache
  | 0, _, c => some c
  | n + 1, file, c =>
    match scanEntry file with
    | none => some c
    | some ((host, digest), rest) => do
      let c ← c.insertDigest s now digest host
      loadEntries s now n rest c

/-- What `fgets` leaves of a file after a line of at most so many bytes. -/
def afterLine : Nat → List UInt8 → List UInt8
  | 0, file => file
  | _ + 1, [] => []
  | n + 1, b :: file => if b = 10 then file else afterLine n file

/-- `ndDNSHintCache::Load`. -/
def load (s : Surroundings) (now : Nat) (dhcSave : DhcSave) (files : DhcFiles)
    (c : DnsHintCache) : Option DnsHintCache :=
  match dhcSave with
  | .disabled => some c
  | mode =>
    match files mode with
    | none => some c
    | some file =>
      let file := afterLine 1023 file
      c.loadEntries s now file.length file

end DnsHintCache

namespace DnsHintFile
open NetifyAgent.Index DnsHintCache

/-- A name the reader takes. -/
def Readable (host : List UInt8) : Prop := host ≠ [] ∧ ∀ b ∈ host, nameByte b = true

instance (host : List UInt8) : Decidable (Readable host) := inferInstanceAs (Decidable (_ ∧ _))

/-! ## What the reader makes of a line -/

/-- A run of a scan set before another byte. -/
theorem scanSet_run (set : UInt8 → Bool) {run : List UInt8} {b : UInt8} (rest : List UInt8)
    (some_run : run ≠ []) (inside : ∀ c ∈ run, set c = true)
    (outside : set b = false) :
    scanSet set (run ++ b :: rest) = some (run, b :: rest) := by
  have taken : (run ++ b :: rest).takeWhile set = run := by
    rw [List.takeWhile_append_of_pos inside, List.takeWhile_cons_of_neg (by simp [outside]),
      List.append_nil]
  have left : (run ++ b :: rest).dropWhile set = b :: rest := by
    rw [List.dropWhile_append_of_pos inside, List.dropWhile_cons_of_neg (by simp [outside])]
  unfold scanSet
  rw [taken, left, if_neg some_run]

theorem skipSpace_stop {b : UInt8} {rest : List UInt8} (solid : isSpaceByte b = false) :
    skipSpace (b :: rest) = b :: rest :=
  List.dropWhile_cons_of_neg (by simp [solid])

/-- A run without white space is not skipped. -/
theorem skipSpace_run {run : List UInt8} (rest : List UInt8) (some_run : run ≠ [])
    (solid : ∀ c ∈ run, isSpaceByte c = false) : skipSpace (run ++ rest) = run ++ rest := by
  cases run with
  | nil => exact absurd rfl some_run
  | cons b run => exact skipSpace_stop (solid b List.mem_cons_self)

theorem digit_solid {b : UInt8} (digit : digitByte b = true) :
    isSpaceByte b = false ∧ b ≠ 43 ∧ b ≠ 45 := by
  simp only [digitByte, isSpaceByte, Bool.and_eq_true, decide_eq_true_eq, Bool.or_eq_false_iff,
    Bool.and_eq_false_iff, decide_eq_false_iff_not, beq_eq_false_iff_ne, ne_eq,
    UInt8.le_iff_toNat_le, ← UInt8.toNat_inj, UInt8.reduceToNat] at digit ⊢
  omega

theorem hex_solid {b : UInt8} (hex : hexByte b = true) : isSpaceByte b = false := by
  simp only [hexByte, digitByte, isSpaceByte, Bool.and_eq_true, Bool.or_eq_true,
    decide_eq_true_eq, Bool.or_eq_false_iff, Bool.and_eq_false_iff, decide_eq_false_iff_not,
    beq_eq_false_iff_ne, ne_eq, UInt8.le_iff_toNat_le, ← UInt8.toNat_inj,
    UInt8.reduceToNat] at hex ⊢
  omega

theorem scanLong_digits {run rest : List UInt8} (some_run : run ≠ [])
    (digits : ∀ c ∈ run, digitByte c = true) : scanLong (run ++ 10 :: rest) = some (10 :: rest) := by
  have read := scanSet_run digitByte (b := 10) rest some_run digits rfl
  unfold scanLong
  rw [skipSpace_run _ some_run fun c here => (digit_solid (digits c here)).1]
  cases run with
  | nil => exact absurd rfl some_run
  | cons b run =>
    obtain ⟨_, plus, minus⟩ := digit_solid (digits b List.mem_cons_self)
    simp only [List.cons_append, plus, minus, or_self, if_false]
    rw [List.cons_append] at read
    rw [read]
    rfl

theorem hexDigit_hex : ∀ n, n < 16 → hexByte (hexDigit n) = true ∧ hexValue (hexDigit n) = n := by
  decide

theorem decimal_digits (digits n : Nat) : ∀ b ∈ decimal digits n, digitByte b = true := by
  have digit : ∀ n, n < 10 → digitByte (UInt8.ofNat (48 + n)) = true := by decide
  induction digits generalizing n with
  | zero => intro b here; cases here
  | succ digits ih =>
    unfold decimal
    split
    · rename_i small
      intro b here
      rw [List.mem_singleton.mp here]
      exact digit n small
    · intro b here
      rcases List.mem_append.mp here with here | here
      · exact ih _ b here
      · rw [List.mem_singleton.mp here]
        exact digit _ (Nat.mod_lt _ (by decide))

theorem decimal_ne_nil (digits n : Nat) : decimal (digits + 1) n ≠ [] := by
  unfold decimal
  split <;> simp

theorem sha1ToString_hex (digest : List UInt8) : ∀ b ∈ sha1ToString digest, hexByte b = true := by
  intro b here
  obtain ⟨d, _, here⟩ := List.mem_flatMap.mp here
  have byte := d.toNat_lt
  rcases List.mem_cons.mp here with rfl | here
  · exact (hexDigit_hex _ (by omega)).1
  · rw [List.mem_singleton.mp here]
    exact (hexDigit_hex _ (Nat.mod_lt _ (by decide))).1

/-- The digest of a line is read back. -/
theorem scanDigest_hex (digest : List UInt8) :
    scanDigest digest.length (digest.flatMap fun b =>
      [hexDigit (b.toNat / 16), hexDigit (b.toNat % 16)]) = some digest := by
  induction digest with
  | nil => rfl
  | cons b rest ih =>
    have byte := b.toNat_lt
    have high := (hexDigit_hex (b.toNat / 16) (by omega)).2
    have low := (hexDigit_hex (b.toNat % 16) (Nat.mod_lt _ (by decide))).2
    have whole : UInt8.ofNat (b.toNat / 16 * 16 + b.toNat % 16) = b := by
      rw [Nat.div_add_mod', UInt8.ofNat_toNat]
    simp only [List.flatMap_cons, List.cons_append, List.nil_append, List.length_cons, scanDigest,
      high, low, whole, ih, Option.map_some]

/-- **A line with a readable name is read back**, up to the next line. -/
theorem scanEntry_line (now : Nat) {digest : List UInt8} {ar : DnsTuple} {rest : List UInt8}
    (readable : Readable ar.hostname) (length : digest.length = digestLength)
    (next : skipSpace rest = rest) :
    scanEntry (line now digest ar ++ rest) =
      some ((ar.hostname, sha1ToString digest), rest) := by
  have plain : cStr ar.hostname = ar.hostname := by
    refine List.takeWhile_eq_self_iff.mpr fun b here => ?_
    have named := readable.2 b here
    rw [decide_eq_true_eq]
    rintro rfl
    cases named
  have hex : sha1ToString digest ≠ [] := by
    cases digest with
    | nil => cases length
    | cons b digest => simp [sha1ToString, digestLength]
  have digits := decimal_digits 10 (((ar.deadline : Int) - now) % 4294967296).toNat
  have some_digits := decimal_ne_nil 9 (((ar.deadline : Int) - now) % 4294967296).toNat
  have text : line now digest ar ++ rest = 34 :: (ar.hostname ++ 34 :: (44 ::
      (sha1ToString digest ++ 44 :: (printTtl ar.deadline now ++ 10 :: rest)))) := by
    simp [line, plain]
  have name := scanSet_run nameByte (b := 34)
    (44 :: (sha1ToString digest ++ 44 :: (printTtl ar.deadline now ++ 10 :: rest)))
    readable.1 readable.2 rfl
  have hash := scanSet_run hexByte (b := 44) (printTtl ar.deadline now ++ 10 :: rest) hex
    (sha1ToString_hex digest) rfl
  have solid := skipSpace_run (44 :: (printTtl ar.deadline now ++ 10 :: rest)) hex
    fun c here => hex_solid (sha1ToString_hex digest c here)
  have time : scanLong (printTtl ar.deadline now ++ 10 :: rest) = some (10 :: rest) :=
    scanLong_digits some_digits digits
  have ended : skipSpace (10 :: rest) = rest := next
  have quote : isSpaceByte 34 = false := rfl
  have comma : isSpaceByte 44 = false := rfl
  rw [text]
  simp only [scanEntry, skipSpace_stop quote, skipSpace_stop comma, literal, if_true, name, solid,
    hash, time, ended, Option.bind_eq_bind, Option.bind_some]
  rfl

/-! ## Whole files -/

theorem insertDigest_line {s : Surroundings} {now : Nat} {digest host : List UInt8}
    {c : DnsHintCache} (length : digest.length = digestLength)
    (absent : c.mapAr.lookup digest = none) :
    c.insertDigest s now (sha1ToString digest) host =
      some ⟨c.mapAr.insert digest ⟨now + s.ttlDnsEntry, host⟩⟩ := by
  have read := scanDigest_hex digest
  unfold insertDigest sha1ToString
  rw [← length, List.take_length, read]
  simp [absent]

theorem afterLine_header (rest : List UInt8) : afterLine 1023 (header ++ rest) = rest := by
  rfl

/-- The lines of entries with readable names are all loaded. -/
theorem loadEntries_lines (s : Surroundings) (now saved : Nat) {n : Nat}
    {entries : List (Sigma fun _ : List UInt8 => DnsTuple)} (c : DnsHintCache)
    (digests : ∀ e ∈ entries, e.1.length = digestLength)
    (readable : ∀ e ∈ entries, Readable e.2.hostname) (nodup : entries.NodupKeys)
    (absent : ∀ e ∈ entries, c.mapAr.lookup e.1 = none) (enough : entries.length ≤ n) :
    ∃ c', c.loadEntries s now n (entries.flatMap fun e => line saved e.1 e.2) = some c' ∧
      ∀ k, (c'.mapAr.lookup k).map DnsTuple.hostname =
        ((entries.dlookup k).map DnsTuple.hostname).or
          ((c.mapAr.lookup k).map DnsTuple.hostname) := by
  induction entries generalizing c n with
  | nil =>
    refine ⟨c, ?_, fun k => by simp⟩
    cases n <;> rfl
  | cons e entries ih =>
    obtain ⟨digest, ar⟩ := e
    obtain ⟨fresh, nodup⟩ := List.nodupKeys_cons.mp nodup
    have next : skipSpace (entries.flatMap fun e => line saved e.1 e.2) =
        entries.flatMap fun e => line saved e.1 e.2 := by
      cases entries <;> rfl
    have length := digests ⟨digest, ar⟩ List.mem_cons_self
    have scanned := scanEntry_line saved (readable ⟨digest, ar⟩ List.mem_cons_self)
      length next
    cases n with
    | zero => simp at enough
    | succ n =>
      have apart : ∀ e ∈ entries, e.1 ≠ digest := fun e here same =>
        fresh (by rw [← same]; exact List.mem_keys_of_mem (s := e) here)
      obtain ⟨c', done, found⟩ := ih (n := n)
        ⟨c.mapAr.insert digest ⟨now + s.ttlDnsEntry, ar.hostname⟩⟩
        (fun e here => digests e (List.mem_cons_of_mem _ here))
        (fun e here => readable e (List.mem_cons_of_mem _ here)) nodup
        (fun e here => by
          rw [AList.lookup_insert_ne (apart e here)]
          exact absent e (List.mem_cons_of_mem _ here))
        (by simpa using enough)
      refine ⟨c', ?_, fun k => ?_⟩
      · rw [List.flatMap_cons]
        simp only [loadEntries, scanned,
          insertDigest_line length (absent ⟨digest, ar⟩ List.mem_cons_self)]
        exact done
      · rw [found]
        by_cases same : k = digest
        · subst same
          rw [List.dlookup_eq_none.mpr fresh, List.dlookup_cons_eq, AList.lookup_insert]
          rfl
        · rw [AList.lookup_insert_ne same, List.dlookup_cons_ne _ _ same]

/-- What the reader takes is readable. -/
theorem readable_of_scanEntry {file host digest rest : List UInt8}
    (scanned : scanEntry file = some ((host, digest), rest)) : Readable host := by
  unfold scanEntry at scanned
  simp only [Option.bind_eq_bind, Option.bind_eq_some_iff, Option.pure_def] at scanned
  obtain ⟨quoted, _, ⟨name, rest'⟩, set, _, _, _, _, _, _, _, _, _, _, result⟩ := scanned
  cases result
  unfold scanSet at set
  split at set
  · cases set
  · rename_i some_run
    cases set
    exact ⟨some_run, fun b here => List.mem_takeWhile_imp here⟩

theorem skipSpace_length (file : List UInt8) : (skipSpace file).length ≤ file.length :=
  (List.dropWhile_sublist _).length_le

theorem literal_length {b : UInt8} {file rest : List UInt8} (read : literal b file = some rest) :
    rest.length < file.length := by
  cases file with
  | nil => cases read
  | cons c file =>
    simp only [literal] at read
    split at read
    · cases read
      exact Nat.lt_succ_self _
    · cases read

theorem scanSet_length {set : UInt8 → Bool} {file run rest : List UInt8}
    (read : scanSet set file = some (run, rest)) : rest.length ≤ file.length := by
  unfold scanSet at read
  split at read
  · cases read
  · cases read
    exact (List.dropWhile_sublist _).length_le

theorem scanLong_length {file rest : List UInt8} (read : scanLong file = some rest) :
    rest.length ≤ file.length := by
  unfold scanLong at read
  obtain ⟨⟨run, rest'⟩, set, rfl⟩ := Option.map_eq_some_iff.mp read
  have digits := scanSet_length set
  have space := skipSpace_length file
  split at digits
  · split at digits
    · rename_i same _
      rw [same, List.length_cons] at space
      exact Nat.le_trans digits (Nat.le_of_succ_le space)
    · exact Nat.le_trans digits space
  · exact Nat.le_trans digits (Nat.zero_le _)

/-- Every line that is read has a byte. -/
theorem scanEntry_length {file rest : List UInt8} {names : List UInt8 × List UInt8}
    (scanned : scanEntry file = some (names, rest)) : rest.length < file.length := by
  unfold scanEntry at scanned
  simp only [Option.bind_eq_bind, Option.bind_eq_some_iff, Option.pure_def] at scanned
  obtain ⟨f₁, quote, ⟨host, f₂⟩, name, f₃, quote', f₄, comma, ⟨digest, f₅⟩, hex, f₆, comma',
    f₇, time, result⟩ := scanned
  cases result
  simp only at quote' hex comma'
  have l₁ := literal_length quote
  have l₂ := scanSet_length name
  have l₃ := literal_length quote'
  have l₄ := literal_length comma
  have l₅ := scanSet_length hex
  have l₆ := literal_length comma'
  have l₇ := scanLong_length time
  have s₀ := skipSpace_length file
  have s₃ := skipSpace_length f₃
  have s₄ := skipSpace_length f₄
  have s₅ := skipSpace_length f₅
  have s₇ := skipSpace_length f₇
  omega

/-- The length of the file is enough to read all of it. -/
theorem loadEntries_enough {s : Surroundings} {now n m : Nat} {file : List UInt8}
    {c : DnsHintCache} (hn : file.length ≤ n) (hm : file.length ≤ m) :
    c.loadEntries s now n file = c.loadEntries s now m file := by
  induction n generalizing file c m with
  | zero =>
    rw [List.length_eq_zero_iff.mp (Nat.le_zero.mp hn)]
    cases m <;> rfl
  | succ n ih =>
    cases m with
    | zero =>
      rw [List.length_eq_zero_iff.mp (Nat.le_zero.mp hm)]
      rfl
    | succ m =>
      unfold loadEntries
      cases scanned : scanEntry file with
      | none => rfl
      | some result =>
        obtain ⟨⟨host, digest⟩, rest⟩ := result
        have shorter := scanEntry_length scanned
        simp only
        congr 1
        funext d
        exact ih (by omega) (by omega)

/-- Loading only adds readable names. -/
theorem loaded_readable {s : Surroundings} {now n : Nat} {file : List UInt8}
    {c c' : DnsHintCache} (before : ∀ k ar, c.mapAr.lookup k = some ar → Readable ar.hostname)
    (done : c.loadEntries s now n file = some c') :
    ∀ k ar, c'.mapAr.lookup k = some ar → Readable ar.hostname := by
  induction n generalizing file c with
  | zero =>
    cases done
    exact before
  | succ n ih =>
    unfold loadEntries at done
    split at done
    · cases done
      exact before
    · rename_i host digest rest scanned
      obtain ⟨d, inserted, done⟩ := Option.bind_eq_some_iff.mp done
      refine ih (fun k ar found => ?_) done
      unfold insertDigest at inserted
      obtain ⟨bytes, _, rfl⟩ := Option.map_eq_some_iff.mp inserted
      split at found
      · exact before k ar found
      · rcases lookup_insert_cases.mp found with ⟨_, rfl⟩ | ⟨_, old⟩
        · exact readable_of_scanEntry scanned
        · exact before k ar old

/-- The same names under the same digests. -/
def SameNames (c back : DnsHintCache) : Prop :=
  ∀ digest, (back.mapAr.lookup digest).map DnsTuple.hostname =
    (c.mapAr.lookup digest).map DnsTuple.hostname

/-- A cache is saved and comes back with the same names. -/
def Restores (s : Surroundings) (saved loaded : Nat) (mode : DhcSave) (files : DhcFiles)
    (c : DnsHintCache) : Prop :=
  ∃ back, load s loaded mode (c.save saved mode files) {} = some back ∧ SameNames c back

/-- **A saved cache is restored exactly when every name is readable**, and while
saving is disabled exactly when it is empty. -/
theorem hints_restored_iff (s : Surroundings) (saved loaded : Nat) (mode : DhcSave) (files : DhcFiles)
    (c : DnsHintCache) (digests : ∀ k ∈ c.mapAr.keys, k.length = digestLength) :
    Restores s saved loaded mode files c ↔
      ∀ k ar, c.mapAr.lookup k = some ar → mode ≠ .disabled ∧ Readable ar.hostname := by
  by_cases disabled : mode = .disabled
  · subst disabled
    have same : Restores s saved loaded .disabled files c ↔ SameNames c {} := by
      constructor
      · rintro ⟨back, done, same⟩
        cases done
        exact same
      · exact fun same => ⟨{}, rfl, same⟩
    rw [same]
    constructor
    · intro same k ar found
      have nothing := same k
      rw [found] at nothing
      cases nothing
    · intro none k
      cases found : c.mapAr.lookup k with
      | none => rfl
      | some ar => exact absurd rfl (none k ar found).1
  · have file : load s loaded mode (c.save saved mode files) {} =
        loadEntries s loaded
          (c.mapAr.entries.flatMap fun e => line saved e.1 e.2).length
          (c.mapAr.entries.flatMap fun e => line saved e.1 e.2) {} := by
      cases mode with
      | disabled => exact absurd rfl disabled
      | persistent => simp only [load, save, Function.update_self, afterLine_header]
      | volatile => simp only [load, save, Function.update_self, afterLine_header]
    unfold Restores
    rw [file]
    constructor
    · rintro ⟨back, done, same⟩ k ar found
      have names := loaded_readable (fun k ar found => by simp at found) done
      have here := same k
      rw [found, Option.map_some] at here
      obtain ⟨ar', found', named⟩ := Option.map_eq_some_iff.mp here
      exact ⟨disabled, named ▸ names k ar' found'⟩
    · intro readable
      have member : ∀ e ∈ c.mapAr.entries, c.mapAr.lookup e.1 = some e.2 := fun e here =>
        AList.mem_lookup_iff.mpr here
      have enough : c.mapAr.entries.length ≤
          (c.mapAr.entries.flatMap fun e => line saved e.1 e.2).length := by
        induction c.mapAr.entries with
        | nil => exact Nat.le_refl _
        | cons e entries ih =>
          rw [List.flatMap_cons, List.length_append, List.length_cons]
          have positive : 1 ≤ (line saved e.1 e.2).length := by simp [line]
          omega
      obtain ⟨back, done, found⟩ := loadEntries_lines s loaded saved {}
        (fun e here => digests e.1 (List.mem_keys_of_mem here))
        (fun e here => (readable e.1 e.2 (member e here)).2) c.mapAr.nodupKeys
        (fun e _ => by simp) enough
      refine ⟨back, done, fun k => ?_⟩
      rw [found]
      simp only [AList.lookup_empty, Option.map_none, Option.or_none]
      rfl

/-- A cache with the name `a.b`. -/
def plainCache : DnsHintCache :=
  ⟨(∅ : AList fun _ : List UInt8 => DnsTuple).insert (List.replicate 20 1) ⟨40, [97, 46, 98]⟩⟩

theorem restores_plain : Restores ⟨id, fun _ => .atOther, 30⟩ 10 5 .volatile (fun _ => none)
      plainCache ↔
    ∀ k ar, plainCache.mapAr.lookup k = some ar →
      DhcSave.volatile ≠ .disabled ∧ Readable ar.hostname :=
  hints_restored_iff _ _ _ _ _ _ (by decide)

/-- The cache of `plainCache` with `*.b` in front. -/
def wildcardCache : DnsHintCache :=
  ⟨plainCache.mapAr.insert (List.replicate 20 2) ⟨40, [42, 46, 98]⟩⟩

/-- The reader stops at `*` and loses every name, those it could read as well. -/
theorem hints_not_restored : ∃ s : Surroundings, (∀ k ∈ wildcardCache.mapAr.keys, k.length = 20) ∧
    (∃ back, load s 5 .persistent (wildcardCache.save 10 .persistent fun _ => none) {} = some back ∧
      back.mapAr.keys = []) ∧
    ¬ Restores s 10 5 .persistent (fun _ => none) wildcardCache := by
  let s : Surroundings := ⟨id, fun _ => .atOther, 30⟩
  have found : (load s 5 .persistent (wildcardCache.save 10 .persistent fun _ => none) {}).any
      (fun back => back.mapAr.keys = []) = true := by decide +kernel
  obtain ⟨back, done, empty⟩ := (Option.any_eq_true _ _).mp found
  refine ⟨s, by decide, ⟨back, done, of_decide_eq_true empty⟩, ?_⟩
  rintro ⟨again, done', same⟩
  cases done.symm.trans done'
  have here := same (List.replicate 20 1)
  have lost : back.mapAr.lookup (List.replicate 20 1) = none := by
    rw [AList.lookup_eq_none, AList.mem_keys, of_decide_eq_true empty]
    exact List.not_mem_nil
  rw [lost] at here
  have kept : (wildcardCache.mapAr.lookup (List.replicate 20 1)).map DnsTuple.hostname =
      some [97, 46, 98] := by decide
  rw [kept] at here
  cases here

end DnsHintFile

end NetifyAgent
