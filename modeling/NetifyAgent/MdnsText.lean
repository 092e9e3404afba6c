import NetifyAgent.MdnsName

/-! What the expansion of a name reads and leaves. The loop follows one pointer,
takes the byte it leads to as the length of a label, tests the end of the message
behind the first byte it reads, and writes no terminating zero. So its text is the
text of the name as long as every pointer leads to a label, and as long as the
union has a zero byte where the text ends. -/
namespace NetifyAgent.MdnsText
open NetifyAgent.Bytes NetifyAgent.Overlay NetifyAgent.Loops StateTransition Relation Dns MdnsName

/-! ## Names -/

/-- A label of 1 to 63 bytes that lies inside the message. -/
def LabelAt (pkt : Memory) (pktLen q : Nat) : Prop :=
  0 < (pkt q).toNat ∧ (pkt q).toNat < 64 ∧ q + (pkt q).toNat < pktLen

instance (pkt : Memory) (pktLen q : Nat) : Decidable (LabelAt pkt pktLen q) :=
  inferInstanceAs (Decidable (_ ∧ _ ∧ _))

def labelOf (pkt : Memory) (q : Nat) : List UInt8 := slice pkt (q + 1) (pkt q).toNat

/-- The position behind a label. -/
def behind (pkt : Memory) (q : Nat) : Nat := q + 1 + (pkt q).toNat

/-- The labels of the name at a position of the message, with its pointers
followed. -/
inductive Name (pkt : Memory) (pktLen : Nat) : Nat → List (List UInt8) → Prop
  | root {p : Nat} : p < pktLen → pkt p = 0 → Name pkt pktLen p []
  | label {p : Nat} {rest : List (List UInt8)} : LabelAt pkt pktLen p →
      Name pkt pktLen (behind pkt p) rest → Name pkt pktLen p (labelOf pkt p :: rest)
  | pointer {p : Nat} {labels : List (List UInt8)} : p + 1 < pktLen → (pkt p).toNat / 64 = 3 →
      Name pkt pktLen (follow pkt p) labels → Name pkt pktLen p labels

/-- The labels with a dot between them. -/
def text (labels : List (List UInt8)) : List UInt8 := [46].intercalate labels

/-- The output index behind the separator. -/
def dotted (i : Nat) : Nat := if i = 0 then i else i + 1

/-- A name whose pointers lead to a label each, as far as there is room for its
text when `i` bytes of it are written. -/
inductive Plain (pkt : Memory) (pktLen : Nat) : Nat → Nat → List (List UInt8) → Prop
  | full {p i : Nat} {labels : List (List UInt8)} : 79 ≤ i → Name pkt pktLen p labels →
      Plain pkt pktLen p i labels
  | root {p i : Nat} : p < pktLen → pkt p = 0 → Plain pkt pktLen p i []
  | label {p i : Nat} {rest : List (List UInt8)} : LabelAt pkt pktLen p →
      Plain pkt pktLen (behind pkt p) (dotted i + (pkt p).toNat) rest →
      Plain pkt pktLen p i (labelOf pkt p :: rest)
  | pointer {p i : Nat} {rest : List (List UInt8)} : p + 1 < pktLen → (pkt p).toNat / 64 = 3 →
      LabelAt pkt pktLen (follow pkt p) →
      Plain pkt pktLen (behind pkt (follow pkt p)) (dotted i + (pkt (follow pkt p)).toNat) rest →
      Plain pkt pktLen p i (labelOf pkt (follow pkt p) :: rest)

/-! ## What the loop reads and writes -/

/-- The offsets that one iteration reads: one for the loop's test, and if that
holds the second byte of a pointer, the length and the label. -/
def stepReads (pkt : Memory) (pktLen : Nat) (s : Nat × Nat × Det) : List Nat :=
  s.1 :: (nameStep pkt pktLen s).elim [] fun t =>
    (if (pkt s.1).toNat / 64 = 3 then [s.1 + 1] else []) ++
      List.range' (follow pkt s.1) (t.1 - follow pkt s.1)

/-- Where the loop goes, without what it writes. -/
def walkStep (pkt : Memory) (pktLen : Nat) : Nat × Nat → Option (Nat × Nat)
  | (p, i) =>
    if pkt p ≠ 0 ∧ p < pktLen ∧ i < 79 then
      let q := follow pkt p
      let copied := min (pkt q).toNat (min (79 - dotted i) (pktLen - (q + 1)))
      some (q + 1 + copied, dotted i + copied)
    else none

/-- The position is inside the message, and so are a pointer that starts there
and what it leads to. -/
def Inside (pkt : Memory) (pktLen : Nat) (t : Nat × Nat) : Prop :=
  t.1 < pktLen ∧ (t.2 < 79 → (pkt t.1).toNat / 64 = 3 →
    t.1 + 1 < pktLen ∧ follow pkt t.1 < pktLen)

/-- A write of one byte of `mdns.domain_name`. -/
def WithinName (e : Event) : Prop :=
  ∃ k v, e = .store .mdns (Layout.mdnsDomainName + k) [v] ∧ k < Layout.hostname

/-- The name is stored as a string and ends where it should. -/
structure Holds (pointerByte : Nat → Nat → UInt8) (d : Det) (name : List UInt8) : Prop where
  bytes : ∀ k (inside : k < name.length), byteOf pointerByte
    (d.flow.metadata.area (Layout.mdnsDomainName + k)).val = name.get ⟨k, inside⟩
  ended : byteOf pointerByte
    (d.flow.metadata.area (Layout.mdnsDomainName + name.length)).val = 0
  nonzero : 0 ∉ name

/-- The expansion reads only the message, writes only the name, and what it
leaves there is the text of the name. -/
structure Expanded (pointerByte : Nat → Nat → UInt8) (pkt : Memory) (pktLen rdata : Nat)
    (d : Det) : Prop where
  reads : ∀ s, Reaches (nameStep pkt pktLen) (rdata, 0, d) s →
    ∀ r ∈ stepReads pkt pktLen s, r < pktLen
  writes : ∀ s, Reaches (nameStep pkt pktLen) (rdata, 0, d) s →
    ∃ events, s.2.2.log = d.log ++ events ∧ ∀ e ∈ events, WithinName e
  held : ∀ labels last, Name pkt pktLen rdata labels →
    last ∈ eval (nameStep pkt pktLen) (rdata, 0, d) →
      Holds pointerByte last.2.2 ((text labels).take 79)

/-! ## One iteration -/

theorem rawBytes_append (first second : List UInt8) :
    rawBytes (first ++ second) = rawBytes first ++ rawBytes second :=
  List.map_append

section
variable {pkt : Memory} {pktLen p q i j : Nat} {d e : Det}

theorem copyLabel_area (pkt : Memory) (pktLen left p i : Nat) (d : Det) :
    (copyLabel pkt pktLen left p i d).2.2.flow.metadata.area =
      store .mdns i (rawBytes (slice pkt p (min left (min (79 - i) (pktLen - p)))))
        d.flow.metadata.area := by
  induction left generalizing p i d with
  | zero => simp [copyLabel, slice, rawBytes]
  | succ left ih =>
    unfold copyLabel
    split
    · rename_i room
      simp only [Layout.hostname] at room
      have more : min (left + 1) (min (79 - i) (pktLen - p)) =
          min left (min (79 - (i + 1)) (pktLen - (p + 1))) + 1 := by omega
      rw [ih, more]
      have behindFirst := store_append Member.mdns i [.byte (pkt p)] (rawBytes (slice pkt (p + 1)
        (min left (min (79 - (i + 1)) (pktLen - (p + 1)))))) d.flow.metadata.area
      rw [Layout.mdnsDomainName, Nat.zero_add]
      exact behindFirst
    · rename_i full
      simp only [Layout.hostname] at full
      have none : min (left + 1) (min (79 - i) (pktLen - p)) = 0 := by omega
      rw [none]
      simp [slice, rawBytes]

theorem copyLabel_writes (pkt : Memory) (pktLen left p i : Nat) (d : Det) :
    ∃ events, (copyLabel pkt pktLen left p i d).2.2.log = d.log ++ events ∧
      ∀ e ∈ events, WithinName e := by
  induction left generalizing p i d with
  | zero => exact ⟨[], by simp [copyLabel], by simp⟩
  | succ left ih =>
    unfold copyLabel
    split
    · rename_i room
      obtain ⟨events, logged, within⟩ := ih (p + 1) (i + 1)
        (d.store .mdns (Layout.mdnsDomainName + i) [.byte (pkt p)])
      refine ⟨.store .mdns (Layout.mdnsDomainName + i) [.byte (pkt p)] :: events, ?_, ?_⟩
      · rw [logged]
        simp [Det.store, Det.note, Det.edit]
      · rw [List.forall_mem_cons]
        exact ⟨⟨i, _, rfl, by omega⟩, within⟩
    · exact ⟨[], by simp, by simp⟩

/-- The separator as it is written. -/
def dot (i : Nat) : List UInt8 := if i = 0 then [] else [46]

theorem dotted_eq (i : Nat) : dotted i = i + (dot i).length := by
  unfold dotted dot
  split <;> rfl

theorem separate_index : (separate i d).1 = dotted i := by
  unfold separate dotted
  split <;> rfl

theorem separate_area : (separate i d).2.flow.metadata.area =
    store .mdns i (rawBytes (dot i)) d.flow.metadata.area := by
  unfold separate dot
  split
  · simp [rawBytes]
  · simp [rawBytes, Det.store, Det.note, Det.edit, Layout.mdnsDomainName]

theorem separate_writes (room : i < 79) : ∃ events, (separate i d).2.log = d.log ++ events ∧
    ∀ e ∈ events, WithinName e := by
  unfold separate
  split
  · exact ⟨[], by simp, by simp⟩
  · refine ⟨[.store .mdns (Layout.mdnsDomainName + i) [.byte 46]], rfl, ?_⟩
    rw [List.forall_mem_singleton]
    exact ⟨i, _, rfl, by simp only [Layout.hostname]; omega⟩

theorem writes_step (taken : nameStep pkt pktLen (p, i, d) = some (q, j, e)) :
    ∃ events, e.log = d.log ++ events ∧ ∀ e ∈ events, WithinName e := by
  obtain ⟨⟨_, _, room⟩, copied⟩ := nameStep_some taken
  obtain ⟨first, separated, firstWithin⟩ := separate_writes (d := d) room
  obtain ⟨second, logged, secondWithin⟩ := copyLabel_writes pkt pktLen (pkt (follow pkt p)).toNat
    (follow pkt p + 1) (separate i d).1 (separate i d).2
  rw [copied, separated, List.append_assoc] at logged
  refine ⟨first ++ second, logged, fun event member => ?_⟩
  rcases List.mem_append.mp member with early | late
  · exact firstWithin event early
  · exact secondWithin event late

/-- Whatever the message, only the name is written. -/
theorem writes_within {s : Nat × Nat × Det} (reached : Reaches (nameStep pkt pktLen) (p, i, d) s) :
    ∃ events, s.2.2.log = d.log ++ events ∧ ∀ e ∈ events, WithinName e := by
  induction reached with
  | refl => exact ⟨[], by simp, by simp⟩
  | tail _ taken ih =>
    obtain ⟨first, logged, firstWithin⟩ := ih
    obtain ⟨second, added, secondWithin⟩ := writes_step taken
    rw [logged, List.append_assoc] at added
    refine ⟨first ++ second, added, fun event member => ?_⟩
    rcases List.mem_append.mp member with early | late
    · exact firstWithin event early
    · exact secondWithin event late

/-- The loop goes where the walk goes. -/
theorem nameStep_walk (pkt : Memory) (pktLen p i : Nat) (d : Det) :
    (nameStep pkt pktLen (p, i, d)).map (fun s => (s.1, s.2.1)) = walkStep pkt pktLen (p, i) := by
  simp only [nameStep, walkStep]
  by_cases going : pkt p ≠ 0 ∧ p < pktLen ∧ i < Layout.hostname - 1
  · obtain ⟨read, written⟩ := copyLabel_positions pkt pktLen (pkt (follow pkt p)).toNat
      (follow pkt p + 1) (separate i d).1 (separate i d).2
    rw [if_pos going, if_pos (by exact going), Option.map_some, read, written, separate_index]
  · rw [if_neg going, if_neg (by exact going)]
    rfl

theorem step_area (taken : nameStep pkt pktLen (p, i, d) = some (q, j, e)) :
    e.flow.metadata.area = store .mdns i
      (rawBytes (dot i ++ slice pkt (follow pkt p + 1) (q - (follow pkt p + 1))))
        d.flow.metadata.area := by
  obtain ⟨-, copied⟩ := nameStep_some taken
  obtain ⟨read, -⟩ := copyLabel_positions pkt pktLen (pkt (follow pkt p)).toNat
    (follow pkt p + 1) (separate i d).1 (separate i d).2
  have area := copyLabel_area pkt pktLen (pkt (follow pkt p)).toNat
    (follow pkt p + 1) (separate i d).1 (separate i d).2
  rw [copied] at read area
  have moved : q = _ := read
  rw [moved, Nat.add_sub_cancel_left]
  rw [separate_index, separate_area, dotted_eq, ← rawBytes_length (dot i), store_append] at area
  rw [separate_index, dotted_eq, ← rawBytes_length (dot i), rawBytes_append]
  exact area

/-! ## Names with direct pointers -/

/-- The text of the labels that are still to come when `i` bytes are written. -/
def piece (i : Nat) (labels : List (List UInt8)) : List UInt8 :=
  if i = 0 then text labels else labels.flatMap (46 :: ·)

theorem text_cons (label : List UInt8) (rest : List (List UInt8)) :
    text (label :: rest) = label ++ rest.flatMap (46 :: ·) := by
  induction rest generalizing label with
  | nil => simp [text, List.intercalate]
  | cons next rest ih =>
    have step : text (label :: next :: rest) = label ++ 46 :: text (next :: rest) := by
      simp [text, List.intercalate]
    rw [step, ih]
    rfl

theorem piece_cons (i : Nat) (label : List UInt8) (rest : List (List UInt8)) :
    piece i (label :: rest) = dot i ++ (label ++ rest.flatMap (46 :: ·)) := by
  unfold piece dot
  split
  · rw [text_cons, List.nil_append]
  · rfl

theorem slice_take (m : Memory) (off n k : Nat) : (slice m off n).take k = slice m off (min k n) := by
  induction n generalizing off k with
  | zero => simp [slice]
  | succ n ih =>
    cases k with
    | zero => simp [slice]
    | succ k => rw [Nat.succ_min_succ, slice, slice, List.take_succ_cons, ih]

theorem Name.inside {labels : List (List UInt8)} (name : Name pkt pktLen p labels) :
    p < pktLen := by
  cases name with
  | root inside _ => exact inside
  | label label _ => exact Nat.lt_of_le_of_lt (Nat.le_add_right _ _) label.2.2
  | pointer inside _ _ => exact Nat.lt_of_succ_lt inside

theorem Plain.inside {labels : List (List UInt8)} (plain : Plain pkt pktLen p i labels) :
    p < pktLen := by
  cases plain with
  | full _ name => exact name.inside
  | root inside _ => exact inside
  | label label _ => exact Nat.lt_of_le_of_lt (Nat.le_add_right _ _) label.2.2
  | pointer inside _ _ _ => exact Nat.lt_of_succ_lt inside

/-- A label that the loop comes to is copied as far as there is room. -/
theorem walk_label (going : pkt p ≠ 0 ∧ p < pktLen ∧ i < 79)
    (label : LabelAt pkt pktLen (follow pkt p)) :
    walkStep pkt pktLen (p, i) =
      some (follow pkt p + 1 + min (pkt (follow pkt p)).toNat (79 - dotted i),
        dotted i + min (pkt (follow pkt p)).toNat (79 - dotted i)) := by
  obtain ⟨_, _, inside⟩ := label
  simp only [walkStep]
  rw [if_pos going]
  congr 3 <;> omega

/-- The loop ends with the text that was still to come, and stays inside the
message. -/
structure Run (pkt : Memory) (pktLen p i : Nat) (labels : List (List UInt8)) : Prop where
  text : ∀ d, ∃ last, last ∈ eval (nameStep pkt pktLen) (p, i, d) ∧
    last.2.2.flow.metadata.area =
      store .mdns i (rawBytes ((piece i labels).take (79 - i))) d.flow.metadata.area
  inside : ∀ t, Reaches (walkStep pkt pktLen) (p, i) t → Inside pkt pktLen t

/-- The text that is still to come, cut to the room there is: the separator, the
label and the rest. -/
theorem take_piece (pkt : Memory) (room : i < 79) (q : Nat) (rest : List (List UInt8)) :
    (piece i (labelOf pkt q :: rest)).take (79 - i) =
      dot i ++ (slice pkt (q + 1) (min (pkt q).toNat (79 - dotted i)) ++
        (rest.flatMap (46 :: ·)).take (79 - (dotted i + (pkt q).toNat))) := by
  have short : (dot i).length ≤ 1 := by
    unfold dot
    split <;> simp
  have left : 79 - i - (dot i).length = 79 - dotted i := by
    rw [dotted_eq]
    omega
  rw [piece_cons, List.take_append, List.take_of_length_le (by omega), left, List.take_append,
    labelOf, slice_length, slice_take, Nat.sub_sub, Nat.min_comm]

theorem nameStep_of_walk {t : Nat × Nat} (walks : walkStep pkt pktLen (p, i) = some t) (d : Det) :
    ∃ e, nameStep pkt pktLen (p, i, d) = some (t.1, t.2, e) := by
  have projected := nameStep_walk pkt pktLen p i d
  rw [walks] at projected
  obtain ⟨⟨q, j, e⟩, taken, rfl⟩ := Option.map_eq_some_iff.mp projected
  exact ⟨e, taken⟩

/-- One label, and what comes behind it if there is room left. -/
theorem run_label (rest : List (List UInt8)) (going : pkt p ≠ 0 ∧ p < pktLen ∧ i < 79)
    (pointer : (pkt p).toNat / 64 = 3 → p + 1 < pktLen)
    (label : LabelAt pkt pktLen (follow pkt p)) (more : behind pkt (follow pkt p) < pktLen)
    (later : dotted i + (pkt (follow pkt p)).toNat < 79 → Run pkt pktLen
      (behind pkt (follow pkt p)) (dotted i + (pkt (follow pkt p)).toNat) rest) :
    Run pkt pktLen p i (labelOf pkt (follow pkt p) :: rest) := by
  have walks := walk_label going label
  have target : follow pkt p < pktLen := Nat.lt_of_le_of_lt (Nat.le_add_right _ _) label.2.2
  have here : Inside pkt pktLen (p, i) :=
    ⟨going.2.1, fun _ pointing => ⟨pointer pointing, target⟩⟩
  have piecewise := take_piece pkt going.2.2 (follow pkt p) rest
  by_cases fits : dotted i + (pkt (follow pkt p)).toNat < 79
  · have whole : min (pkt (follow pkt p)).toNat (79 - dotted i) = (pkt (follow pkt p)).toNat := by
      omega
    rw [whole] at walks piecewise
    refine ⟨fun d => ?_, fun t reached => ?_⟩
    · obtain ⟨e, taken⟩ := nameStep_of_walk walks d
      obtain ⟨last, ended, area⟩ := (later fits).text e
      refine ⟨last, ?_, ?_⟩
      · rw [reaches_eval (ReflTransGen.single (Option.mem_def.mpr taken))]
        exact ended
      · have begun : dotted i + (pkt (follow pkt p)).toNat ≠ 0 :=
          Nat.ne_of_gt (Nat.add_pos_right _ label.1)
        have copied := step_area taken
        simp only [Nat.add_sub_cancel_left] at copied
        have index : dotted i + (pkt (follow pkt p)).toNat = i + (dot i ++
            slice pkt (follow pkt p + 1) (pkt (follow pkt p)).toNat).length := by
          rw [dotted_eq, List.length_append, slice_length, Nat.add_assoc]
        rw [area, copied, piecewise, ← List.append_assoc, rawBytes_append _ (List.take _ _),
          ← store_append, rawBytes_length, ← index, piece, if_neg begun]
    · rcases ReflTransGen.cases_head reached with rfl | ⟨next, taken, rest⟩
      · exact here
      · rw [walks] at taken
        cases taken
        exact (later fits).inside t rest
  · have cut : min (pkt (follow pkt p)).toNat (79 - dotted i) = 79 - dotted i := by omega
    have end79 : dotted i + (79 - dotted i) = 79 := by
      have := going.2.2
      unfold dotted
      split <;> omega
    rw [cut, end79] at walks
    rw [cut, Nat.sub_eq_zero_of_le (Nat.not_lt.mp fits), List.take_zero, List.append_nil]
      at piecewise
    refine ⟨fun d => ?_, fun t reached => ?_⟩
    · obtain ⟨e, taken⟩ := nameStep_of_walk walks d
      refine ⟨_, mem_eval.mpr ⟨ReflTransGen.single (Option.mem_def.mpr taken), ?_⟩, ?_⟩
      · simp [nameStep, Layout.hostname]
      · have copied := step_area taken
        simp only [Nat.add_sub_cancel_left] at copied
        rw [copied, piecewise]
    · rcases ReflTransGen.cases_head reached with rfl | ⟨next, taken, rest⟩
      · exact here
      · rw [walks] at taken
        cases taken
        rcases ReflTransGen.cases_head rest with rfl | ⟨_, further, _⟩
        · refine ⟨?_, fun room => absurd room (by simp)⟩
          unfold behind at more
          simp only
          omega
        · simp [walkStep] at further

theorem run_plain {labels : List (List UInt8)} (plain : Plain pkt pktLen p i labels)
    (room : i < 79) : Run pkt pktLen p i labels := by
  induction plain with
  | full full _ => exact absurd room (Nat.not_lt.mpr full)
  | @root p i inside zero =>
    refine ⟨fun d => ⟨(p, i, d), mem_eval.mpr ⟨.refl, by simp [nameStep, zero]⟩, ?_⟩, ?_⟩
    · simp [piece, text, List.intercalate, rawBytes]
    · intro t reached
      rcases ReflTransGen.cases_head reached with rfl | ⟨_, further, _⟩
      · refine ⟨inside, fun _ pointing => ?_⟩
        have pointing : (pkt p).toNat / 64 = 3 := pointing
        simp [zero] at pointing
      · simp [walkStep, zero] at further
  | @label p i rest label plain ih =>
    obtain ⟨positive, short, ends⟩ := label
    have direct : follow pkt p = p := by
      unfold follow
      rw [if_neg (by omega)]
    have nonzero : pkt p ≠ 0 := by
      intro zero
      simp [zero] at positive
    have inside : p < pktLen := Nat.lt_of_le_of_lt (Nat.le_add_right _ _) ends
    have run := run_label (p := p) (i := i) rest ⟨nonzero, inside, room⟩ (fun _ => by omega)
    rw [direct] at run
    exact run ⟨positive, short, ends⟩ plain.inside ih
  | @pointer p i rest inside pointing label plain ih =>
    have nonzero : pkt p ≠ 0 := by
      intro zero
      simp [zero] at pointing
    exact run_label rest ⟨nonzero, Nat.lt_of_succ_lt inside, room⟩ (fun _ => inside) label
      plain.inside ih

/-! ## The whole name -/

/-- What an iteration reads is inside the message if its position is, and the
pointer there. -/
theorem step_reads (s : Nat × Nat × Det) :
    (∀ r ∈ stepReads pkt pktLen s, r < pktLen) ↔ Inside pkt pktLen (s.1, s.2.1) := by
  obtain ⟨p, i, d⟩ := s
  unfold stepReads Inside
  simp only [List.forall_mem_cons]
  refine and_congr_right fun inside => ?_
  by_cases going : pkt p ≠ 0 ∧ p < pktLen ∧ i < 79
  · have walks : walkStep pkt pktLen (p, i) = some _ := if_pos going
    obtain ⟨e, taken⟩ := nameStep_of_walk walks d
    rw [taken, Option.elim_some]
    simp only [List.forall_mem_append, List.mem_range'_1]
    by_cases pointing : (pkt p).toNat / 64 = 3
    · simp only [pointing, if_true, List.forall_mem_singleton, going.2.2, forall_true_left]
      refine and_congr_right fun _ => ⟨fun read => ?_, fun target r read => by omega⟩
      exact read (follow pkt p) (by omega)
    · have direct : follow pkt p = p := if_neg pointing
      simp only [pointing, if_false, List.not_mem_nil, false_imp_iff, implies_true, true_and,
        iff_true, direct]
      omega
  · have ended : nameStep pkt pktLen (p, i, d) = none := if_neg going
    rw [ended]
    simp only [Option.elim_none, List.not_mem_nil, false_imp_iff, implies_true, true_iff]
    intro room pointing
    refine absurd ⟨fun zero => ?_, inside, room⟩ going
    simp [zero] at pointing

theorem reached_of_walk {t : Nat × Nat} (reached : Reaches (walkStep pkt pktLen) (p, i) t)
    (d : Det) : ∃ e, Reaches (nameStep pkt pktLen) (p, i, d) (t.1, t.2, e) := by
  induction reached with
  | refl => exact ⟨d, .refl⟩
  | tail _ walks ih =>
    obtain ⟨e, reached⟩ := ih
    obtain ⟨f, taken⟩ := nameStep_of_walk walks e
    exact ⟨f, reached.tail taken⟩

theorem walk_of_reached {s : Nat × Nat × Det}
    (reached : Reaches (nameStep pkt pktLen) (p, i, d) s) :
    Reaches (walkStep pkt pktLen) (p, i) (s.1, s.2.1) := by
  induction reached with
  | refl => exact .refl
  | @tail s t _ taken ih =>
    refine ih.tail ?_
    rw [← nameStep_walk pkt pktLen s.1 s.2.1 s.2.2, Option.mem_def.mp taken]
    rfl

/-- What the loop reads is inside the message if its way is. -/
theorem reads_iff : (∀ s, Reaches (nameStep pkt pktLen) (p, i, d) s →
      ∀ r ∈ stepReads pkt pktLen s, r < pktLen) ↔
    ∀ t, Reaches (walkStep pkt pktLen) (p, i) t → Inside pkt pktLen t := by
  simp only [step_reads]
  constructor
  · intro inside t reached
    obtain ⟨e, reached⟩ := reached_of_walk reached d
    exact inside _ reached
  · intro inside s reached
    exact inside _ (walk_of_reached reached)

/-- A name has one text. -/
theorem Name.unique {labels others : List (List UInt8)} (name : Name pkt pktLen p labels)
    (other : Name pkt pktLen p others) : labels = others := by
  induction name generalizing others with
  | root _ zero =>
    cases other with
    | root _ _ => rfl
    | label label _ => simp [LabelAt, zero] at label
    | pointer _ pointing _ => simp [zero] at pointing
  | label label _ ih =>
    obtain ⟨positive, short, _⟩ := label
    cases other with
    | root _ zero => simp [zero] at positive
    | label _ other => rw [ih other]
    | pointer _ pointing _ => omega
  | pointer _ pointing _ ih =>
    cases other with
    | root _ zero => simp [zero] at pointing
    | label label _ =>
      obtain ⟨_, short, _⟩ := label
      omega
    | pointer _ _ other => exact ih other

theorem Plain.name {labels : List (List UInt8)} (plain : Plain pkt pktLen p i labels) :
    Name pkt pktLen p labels := by
  induction plain with
  | full _ name => exact name
  | root inside zero => exact .root inside zero
  | label label _ ih => exact .label label ih
  | pointer inside pointing label _ ih => exact .pointer inside pointing (.label label ih)

theorem byteOf_store (pointerByte : Nat → Nat → UInt8) {bytes : List UInt8} (off : Nat)
    (a : Area Member) {k : Nat} (inside : k < bytes.length) :
    byteOf pointerByte (store .mdns off (rawBytes bytes) a (off + k)).val =
      bytes.get ⟨k, inside⟩ := by
  rw [store_inside _ (Nat.le_add_right _ _) (by rw [rawBytes_length]; omega)]
  simp [rawBytes, byteOf]

/-- A text that was written holds if it has no zero byte and there is one behind
it already. -/
theorem holds_iff {pointerByte : Nat → Nat → UInt8} {name : List UInt8}
    (written : e.flow.metadata.area = store .mdns 0 (rawBytes name) d.flow.metadata.area) :
    Holds pointerByte e name ↔ 0 ∉ name ∧ byteOf pointerByte
      (d.flow.metadata.area (Layout.mdnsDomainName + name.length)).val = 0 := by
  have after : e.flow.metadata.area (Layout.mdnsDomainName + name.length) =
      d.flow.metadata.area (Layout.mdnsDomainName + name.length) := by
    rw [written]
    exact store_after _ (by simp [Layout.mdnsDomainName])
  constructor
  · intro holds
    exact ⟨holds.nonzero, by rw [← after]; exact holds.ended⟩
  · rintro ⟨nonzero, ended⟩
    refine ⟨fun k inside => ?_, by rw [after]; exact ended, nonzero⟩
    rw [written]
    exact byteOf_store pointerByte 0 _ inside

end

/-- **The text of a name.** If all pointers of the name lead to a label, its
expansion goes as it should exactly if the text has no zero byte and the union
has one behind it; and data that is no name must not lead out of the message. -/
theorem expanded_iff (pointerByte : Nat → Nat → UInt8) (pkt : Memory) (pktLen rdata : Nat)
    (d : Det)
    (direct : ∀ labels, Name pkt pktLen rdata labels → Plain pkt pktLen rdata 0 labels) :
    Expanded pointerByte pkt pktLen rdata d ↔
      (∀ labels, Name pkt pktLen rdata labels → 0 ∉ (text labels).take 79 ∧
        byteOf pointerByte (d.flow.metadata.area
          (Layout.mdnsDomainName + ((text labels).take 79).length)).val = 0) ∧
      ((∃ labels, Name pkt pktLen rdata labels) ∨
        ∀ t, Reaches (walkStep pkt pktLen) (rdata, 0) t → Inside pkt pktLen t) := by
  constructor
  · intro expanded
    refine ⟨fun labels name => ?_, .inr (reads_iff.mp expanded.reads)⟩
    obtain ⟨last, ended, written⟩ := (run_plain (direct labels name) (by omega)).text d
    exact (holds_iff written).mp (expanded.held labels last name ended)
  · rintro ⟨room, inside⟩
    have walk : ∀ t, Reaches (walkStep pkt pktLen) (rdata, 0) t → Inside pkt pktLen t := by
      rcases inside with ⟨labels, name⟩ | inside
      · exact (run_plain (direct labels name) (by omega)).inside
      · exact inside
    refine ⟨reads_iff.mpr walk, fun s reached => writes_within reached, ?_⟩
    intro labels last name ended
    obtain ⟨last', ended', written⟩ := (run_plain (direct labels name) (by omega)).text d
    cases Part.mem_unique ended ended'
    exact (holds_iff written).mpr (room labels name)

/-! ## What cannot be printed -/

/-- A byte of a name as `nd_set_hostname` keeps it. -/
def shown (b : UInt8) : UInt8 := if printable b || b == 0 then b else 95

theorem untilZero_append {name : List UInt8} (nonzero : 0 ∉ name) (rest : List UInt8) :
    untilZero (name ++ 0 :: rest) = name ++ [0] := by
  induction name with
  | nil => simp [untilZero]
  | cons b name ih =>
    rw [List.mem_cons, not_or] at nonzero
    rw [List.cons_append, untilZero, if_neg (Ne.symm nonzero.1), ih nonzero.2]
    rfl

theorem setHostnameLoose_append {name : List UInt8} (nonzero : 0 ∉ name) (rest : List UInt8) :
    setHostnameLoose (name ++ 0 :: rest) = name.map shown ++ [0] := by
  unfold setHostnameLoose
  rw [untilZero_append nonzero, List.map_append]
  exact List.rdropWhile_concat_neg _ _ _ (by decide)

section
variable {pointerByte : Nat → Nat → UInt8} {d : Det} {name : List UInt8}

/-- The bytes of `mdns.domain_name`. -/
theorem Holds.read (holds : Holds pointerByte d name) (short : name.length < Layout.hostname) :
    ∃ rest, (List.range Layout.hostname).map (fun i => byteOf pointerByte
      (d.flow.metadata.area (Layout.mdnsDomainName + i)).val) = name ++ 0 :: rest := by
  refine ⟨((List.range Layout.hostname).map fun i => byteOf pointerByte
    (d.flow.metadata.area (Layout.mdnsDomainName + i)).val).drop (name.length + 1), ?_⟩
  apply List.ext_getElem
  · simp only [List.length_map, List.length_range, List.length_append, List.length_cons,
      List.length_drop]
    omega
  · intro k inside _
    rw [List.getElem_map, List.getElem_range]
    rcases Nat.lt_trichotomy k name.length with before | rfl | later
    · rw [List.getElem_append_left before]
      exact holds.bytes k before
    · rw [List.getElem_append_right (Nat.le_refl _)]
      simpa using holds.ended
    · rw [List.getElem_append_right (Nat.le_of_lt later)]
      obtain ⟨m, rfl⟩ := Nat.exists_eq_add_of_lt later
      simp [Nat.add_assoc, Nat.add_comm 1]

/-- `nd_set_hostname` keeps a string a string. -/
theorem sanitize_holds (holds : Holds pointerByte d name) (short : name.length < Layout.hostname) :
    Holds pointerByte (sanitize pointerByte d) (name.map shown) := by
  have nonzero : 0 ∉ name.map shown := by
    rw [List.mem_map]
    rintro ⟨b, member, zero⟩
    unfold shown at zero
    split at zero
    · exact holds.nonzero (zero ▸ member)
    · cases zero
  unfold sanitize
  split
  · obtain ⟨rest, bytes⟩ := holds.read short
    rw [bytes, setHostnameLoose_append holds.nonzero]
    refine ⟨fun k inside => ?_, ?_, nonzero⟩
    · refine (byteOf_store pointerByte _ _ ?_).trans (List.getElem_append_left inside)
      exact Nat.lt_of_lt_of_le inside (List.length_append ▸ Nat.le_add_right _ _)
    · refine (byteOf_store pointerByte _ _ ?_).trans (List.getElem_concat_length rfl _)
      rw [List.length_append]
      exact Nat.lt_succ_self _
  · rename_i empty
    cases name with
    | nil => exact ⟨holds.bytes, holds.ended, nonzero⟩
    | cons b name =>
      have first := holds.bytes 0 (Nat.zero_lt_succ _)
      have zero : (d.flow.metadata.area Layout.mdnsDomainName).val = .byte 0 := by
        simpa [Metadata.nonempty] using empty
      rw [Nat.add_zero, zero] at first
      have head : (0 : UInt8) = b := first
      exact absurd (head ▸ List.mem_cons_self) holds.nonzero

/-- **A pointer record.** With enough fuel, a record whose name goes as it
should leaves its text, with what cannot be printed replaced. -/
theorem pointerRecord_holds {pkt : Memory} {pktLen : Nat} {rr : NsRr}
    {labels : List (List UInt8)} (plain : Plain pkt pktLen rr.rdata 0 labels)
    (expanded : Expanded pointerByte pkt pktLen rr.rdata d)
    (absent : d.flow.metadata.hasMdnsDomainName d.flow.detectedProtocol = false) :
    ∃ enough, ∀ more, Holds pointerByte (pointerRecord pointerByte (enough + more) pkt pktLen rr d)
      (((text labels).take 79).map shown) := by
  obtain ⟨last, ended, _⟩ := (run_plain plain (by omega)).text d
  obtain ⟨enough, returns⟩ := copyName_of_ends ended
  refine ⟨enough, fun more => ?_⟩
  unfold pointerRecord
  rw [absent, returns more]
  refine sanitize_holds (expanded.held labels last plain.name ended) ?_
  exact Nat.lt_of_le_of_lt (List.length_take_le _ _) (by decide)

end

/-! ## Two answers -/

/-- An mDNS answer with a record for `a` whose data begins at byte 25. -/
def answer (rdlen : UInt8) (rdata : List UInt8) : List UInt8 :=
  [0, 0, 0x84, 0, 0, 0, 0, 1, 0, 0, 0, 0,
   1, 97, 0, 0, 12, 0, 1, 0, 0, 0, 120, 0, rdlen] ++ rdata

/-- The name `foo.a`: a label and a pointer to the record's own name. -/
def direct : List UInt8 := answer 6 [3, 102, 111, 111, 0xc0, 12]

/-- The name `a`, by a pointer to a pointer. -/
def detour : List UInt8 := answer 4 [0xc0, 27, 0xc0, 12]

def zeroByte : Nat → Nat → UInt8 := fun _ _ => 0

theorem plain_direct : Plain (direct.getD · 0) 31 25 0 [[102, 111, 111], [97]] :=
  .label (by decide) (.pointer (by decide) (by decide) (by decide) (.root (by decide) (by decide)))

/-- The first is expanded in a flow without metadata. -/
theorem expanded_direct : Expanded zeroByte (direct.getD · 0) 31 25 ⟨{}, []⟩ := by
  have known {labels} (name : Name (direct.getD · 0) 31 25 labels) :
      labels = [[102, 111, 111], [97]] := name.unique plain_direct.name
  refine (expanded_iff zeroByte _ 31 25 ⟨{}, []⟩ fun labels name => ?_).mpr
    ⟨fun labels name => ?_, .inl ⟨_, plain_direct.name⟩⟩
  · rw [known name]
    exact plain_direct
  · rw [known name]
    decide

/-- The second is a name, and its expansion reads behind the message. -/
theorem expanded_detour : Name (detour.getD · 0) 29 25 [[97]] ∧
    ¬ Expanded zeroByte (detour.getD · 0) 29 25 ⟨{}, []⟩ := by
  constructor
  · exact .pointer (by decide) (by decide) (.pointer (by decide) (by decide)
      (.label (by decide) (.root (by decide) (by decide))))
  · intro expanded
    have walk : walkStep (detour.getD · 0) 29 (25, 0) = some (29, 1) := by decide
    have inside := reads_iff.mp expanded.reads (29, 1) (ReflTransGen.single walk)
    exact absurd inside.1 (by decide)

end NetifyAgent.MdnsText
