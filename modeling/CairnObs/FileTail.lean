import CairnObs.GuardedRuns
import CairnObs.TextLines
import CairnObs.Utf8

/-! The agent's file source, `source/file_tail.rs`: a file that grows, and a reader that polls
it. -/
namespace CairnObs.FileTail

open GuardedRuns TextLines

inductive Status
  | running
  | failed
  | stopped
  deriving DecidableEq

/-- The file, and the locals of `run` with the lines that it has sent. -/
structure Tail where
  content : List UInt8
  pos : ℕ
  sent : List (List UInt8)
  status : Status
  deriving DecidableEq

def isNewline (b : UInt8) : Bool := b == 0x0a

def isLineEnd (b : UInt8) : Bool := b == 0x0a || b == 0x0d

/-- `trim_end_matches(['\n', '\r'])`. Both are single bytes in UTF-8. -/
def trimEnd (bs : List UInt8) : List UInt8 := bs.rdropWhile isLineEnd

/-- What `read_line` returns: the bytes up to and with the next newline, or those at hand. -/
def Tail.readLine (s : Tail) : List UInt8 := firstLine isNewline (s.content.drop s.pos)

/-- One turn of the loop. A line that is no UTF-8 is an error, and a channel without a receiver
ends the loop. -/
def Tail.read (s : Tail) (receiving : Bool) : Tail :=
  if Utf8.valid s.readLine = false then { s with status := .failed }
  else if s.readLine = [] then
    -- The file shrank: it is opened again.
    if s.content.length < s.pos then { s with pos := 0 } else s
  else if trimEnd s.readLine = [] then { s with pos := s.pos+s.readLine.length }
  else if receiving then
    { s with pos := s.pos+s.readLine.length, sent := s.sent ++ [trimEnd s.readLine] }
  else { s with pos := s.pos+s.readLine.length, status := .stopped }

inductive Event
  | append (bytes : List UInt8)
  | read (receiving : Bool)

def Tail.step (s : Tail) : Event → Option Tail
  | .append bytes => some { s with content := s.content ++ bytes }
  | .read receiving => if s.status = .running then some (s.read receiving) else none

/-- `run` from the beginning of a file. -/
def start (content : List UInt8) : Tail := ⟨content, 0, [], .running⟩

/-! ### The lines of a file -/

/-- Lines without their endings; empty ones are left out. -/
def shown (lines : List (List UInt8)) : List (List UInt8) :=
  (lines.map trimEnd).filter (fun line => decide (line ≠ []))

/-- The non-empty complete lines of a text. -/
def linesOf (bs : List UInt8) : List (List UInt8) := shown (completeFrom isNewline [] bs)

/-- The bytes behind the last newline. -/
def unfinished (bs : List UInt8) : List UInt8 := unfinishedFrom isNewline [] bs

/-- Every line once: those sent are the lines of some start of the file, and all its lines when
the reader is at its end. -/
structure Tail.Exact (s : Tail) : Prop where
  lines : ∃ p, p <+: s.content ∧ s.sent = linesOf p
  all : s.status = .running → s.pos = s.content.length → s.sent = linesOf s.content

/-- The step does not cut a line: what is read is no UTF-8 or has nothing but line endings, or
nobody receives it, or it is a whole line with its newline. -/
def Tail.WholeLine (s : Tail) : Event → Prop
  | .append _ => True
  | .read receiving => Utf8.valid s.readLine = false ∨ trimEnd s.readLine = [] ∨
      receiving = false ∨
      (unfinished (s.content.take s.pos) = [] ∧ s.readLine.getLast? = some 0x0a)

theorem shown_append (l m : List (List UInt8)) : shown (l ++ m) = shown l ++ shown m := by
  rw [shown, List.map_append, List.filter_append]
  rfl

theorem shown_singleton (line : List UInt8) :
    shown [line] = if trimEnd line = [] then [] else [trimEnd line] := by
  by_cases h : trimEnd line = []
  · rw [if_pos h]
    exact List.filter_eq_nil_iff.mpr (by simp [h])
  · rw [if_neg h]
    exact List.filter_eq_self.mpr (by simp [h])

theorem linesOf_append (a b : List UInt8) :
    linesOf (a ++ b) = linesOf a ++ shown (completeFrom isNewline (unfinished a) b) := by
  rw [linesOf, completeFrom_append, shown_append]
  rfl

variable {bs : List UInt8} {s : Tail}

theorem linesOf_mono {p : List UInt8} (h : p <+: bs) : linesOf p <+: linesOf bs := by
  obtain ⟨post, rfl⟩ := h
  rw [linesOf_append]
  exact List.prefix_append _ _

theorem trimEnd_concat {b : UInt8} (hb : isNewline b = true) (bs : List UInt8) :
    trimEnd (bs ++ [b]) = trimEnd bs := by
  apply List.rdropWhile_concat_pos
  rw [isLineEnd, show (b == 0x0a) = true from hb, Bool.true_or]

theorem trimEnd_eq_nil_iff :
    trimEnd bs = [] ↔ ∀ b ∈ bs, isLineEnd b = true := List.rdropWhile_eq_nil_iff

/-- Line endings in front are kept when something else follows. -/
theorem trimEnd_append {h : List UInt8} (hbs : trimEnd bs ≠ []) :
    trimEnd (h ++ bs) = h ++ trimEnd bs := by
  induction bs using List.reverseRecOn with
  | nil => exact absurd rfl hbs
  | append_singleton bs b ih =>
    rw [trimEnd] at hbs
    rw [trimEnd, trimEnd, ← List.append_assoc]
    cases hb : isLineEnd b with
    | true =>
      rw [List.rdropWhile_concat_pos isLineEnd _ _ hb] at hbs ⊢
      rw [List.rdropWhile_concat_pos isLineEnd _ _ hb]
      exact ih hbs
    | false =>
      rw [List.rdropWhile_concat_neg isLineEnd _ _ (by rw [hb]; exact Bool.false_ne_true),
        List.rdropWhile_concat_neg isLineEnd _ _ (by rw [hb]; exact Bool.false_ne_true),
        List.append_assoc]

/-! ### What is read -/

theorem readLine_at_pos (s : Tail) : s.readLine <+: s.content.drop s.pos := by
  rw [Tail.readLine]
  rcases firstLine_cases isNewline (s.content.drop s.pos) with
    ⟨hline, -⟩ | ⟨pre, b, post, hdrop, -, -, hline⟩
  · rw [hline]
  · rw [hline, hdrop]
    exact ⟨post, by rw [List.append_assoc]; rfl⟩

/-- The file up to the end of what is read. -/
theorem take_readLine (s : Tail) :
    s.content.take (s.pos+s.readLine.length) = s.content.take s.pos ++ s.readLine := by
  rw [List.take_add]
  congr 1
  exact (List.prefix_iff_eq_take.mp (readLine_at_pos s)).symm

/-- The rest of the file without a newline, or a line with it. -/
theorem readLine_cases (s : Tail) :
    (s.readLine = s.content.drop s.pos ∧ ∀ b ∈ s.readLine, isNewline b = false) ∨
      ∃ pre, s.readLine = pre ++ [0x0a] ∧ ∀ b ∈ pre, isNewline b = false := by
  rcases firstLine_cases isNewline (s.content.drop s.pos) with
    ⟨hline, hnone⟩ | ⟨pre, b, post, -, hb, hpre, hline⟩
  · exact .inl ⟨hline, fun b hb => hnone b (hline ▸ hb)⟩
  · obtain rfl : b = 0x0a := eq_of_beq hb
    exact .inr ⟨pre, hline, hpre⟩

/-- A part of a line makes no new line. -/
theorem linesOf_part (done : List UInt8) (h : ∀ b ∈ bs, isNewline b = false) :
    linesOf (done ++ bs) = linesOf done ∧ unfinished (done ++ bs) = unfinished done ++ bs := by
  obtain ⟨hcomplete, hunfinished⟩ := part_of_line h (unfinished done)
  rw [linesOf_append, hcomplete, unfinished, unfinishedFrom_append]
  exact ⟨List.append_nil _, hunfinished⟩

/-- A newline ends the line that was begun. -/
theorem linesOf_end (done : List UInt8) {pre : List UInt8} (h : ∀ b ∈ pre, isNewline b = false) :
    linesOf (done ++ (pre ++ [0x0a])) = linesOf done ++ shown [unfinished done ++ pre] ∧
      unfinished (done ++ (pre ++ [0x0a])) = [] := by
  obtain ⟨hcomplete, hunfinished⟩ := end_of_line h (a := 0x0a) rfl (unfinished done)
  refine ⟨by rw [linesOf_append, hcomplete], ?_⟩
  rw [unfinished, unfinishedFrom_append]
  exact hunfinished

theorem eq_cr {b : UInt8} (hend : isLineEnd b = true) (hline : isNewline b = false) : b = 0x0d := by
  rw [isLineEnd, show (b == 0x0a) = false from hline, Bool.false_or] at hend
  exact eq_of_beq hend

/-! ### Runs -/

/-- What holds as long as no line is cut. -/
structure Tail.Known (s : Tail) : Prop where
  bound : s.pos ≤ s.content.length
  lines : ∃ p, p <+: s.content ∧ s.sent = linesOf p
  sent : s.status = .running → s.sent = linesOf (s.content.take s.pos)
  /-- Of a line that was begun only carriage returns have been read. -/
  head : s.status = .running → ∀ b ∈ unfinished (s.content.take s.pos), b = 0x0d

theorem Tail.Known.exact (h : s.Known) : s.Exact := by
  refine ⟨h.lines, fun hrun hpos => ?_⟩
  rw [h.sent hrun, hpos, List.take_length]

theorem known_start (content : List UInt8) : (start content).Known :=
  ⟨Nat.zero_le _, ⟨[], List.nil_prefix, rfl⟩, fun _ => rfl,
    fun _ _ hb => absurd hb List.not_mem_nil⟩

theorem Tail.Known.append (h : s.Known) (bytes : List UInt8) :
    Tail.Known { s with content := s.content ++ bytes } := by
  have htake : (s.content ++ bytes).take s.pos = s.content.take s.pos :=
    List.take_append_of_le_length h.bound
  obtain ⟨p, hp, hsent⟩ := h.lines
  constructor
  · rw [List.length_append]
    exact Nat.le_add_right_of_le h.bound
  · exact ⟨p, hp.trans (List.prefix_append _ _), hsent⟩
  · rw [htake]
    exact h.sent
  · rw [htake]
    exact h.head

/-- The reader moves on to the end of what it has read. -/
theorem Tail.Known.advance {sent : List (List UInt8)} (h : s.Known)
    (hsent : sent = linesOf (s.content.take s.pos ++ s.readLine))
    (hhead : ∀ b ∈ unfinished (s.content.take s.pos ++ s.readLine), b = 0x0d) :
    Tail.Known { s with pos := s.pos+s.readLine.length, sent := sent } := by
  have htake := take_readLine s
  have hlen := (readLine_at_pos s).length_le
  rw [List.length_drop] at hlen
  constructor
  · show s.pos+s.readLine.length ≤ s.content.length
    have hbound := h.bound
    omega
  · exact ⟨_, List.take_prefix _ _, hsent.trans (congrArg linesOf htake.symm)⟩
  · exact fun _ => hsent.trans (congrArg linesOf htake.symm)
  · intro _ b hb
    exact hhead b (htake ▸ hb)

/-- Nothing but line endings: no line is missed, and no more than carriage returns are. -/
theorem Tail.Known.skip (h : s.Known) (hrun : s.status = .running)
    (htrim : trimEnd s.readLine = []) :
    Tail.Known { s with pos := s.pos+s.readLine.length } := by
  have hends := trimEnd_eq_nil_iff.mp htrim
  have hsent := h.sent hrun
  have hhead := h.head hrun
  rcases readLine_cases s with ⟨-, hpart⟩ | ⟨pre, hline, hpre⟩
  -- The end of the file, without a newline: carriage returns are left over at most.
  · obtain ⟨hlines, hunfinished⟩ := linesOf_part (s.content.take s.pos) hpart
    refine h.advance (hsent.trans hlines.symm) ?_
    rw [hunfinished]
    intro b hb
    rcases List.mem_append.mp hb with hb | hb
    · exact hhead b hb
    · exact eq_cr (hends b hb) (hpart b hb)
  · obtain ⟨hlines, hunfinished⟩ := linesOf_end (s.content.take s.pos) hpre
    rw [hline] at hends
    -- With what was left over before, the newline ends an empty line, which is not sent.
    have hempty : trimEnd (unfinished (s.content.take s.pos) ++ pre) = [] := by
      apply trimEnd_eq_nil_iff.mpr
      intro b hb
      rcases List.mem_append.mp hb with hb | hb
      · rw [hhead b hb]
        rfl
      · exact hends b (List.mem_append_left _ hb)
    rw [shown_singleton, if_pos hempty, List.append_nil, ← hline] at hlines
    rw [← hline] at hunfinished
    refine h.advance (hsent.trans hlines.symm) ?_
    rw [hunfinished]
    exact fun b hb => absurd hb List.not_mem_nil

/-- A whole line is sent. -/
theorem Tail.Known.send (h : s.Known) (hrun : s.status = .running) (htrim : trimEnd s.readLine ≠ [])
    (hstart : unfinished (s.content.take s.pos) = []) (hend : s.readLine.getLast? = some 0x0a) :
    Tail.Known { s with
      pos := s.pos+s.readLine.length
      sent := s.sent ++ [trimEnd s.readLine] } := by
  rcases readLine_cases s with ⟨-, hpart⟩ | ⟨pre, hline, hpre⟩
  · have hnewline := hpart 0x0a (List.mem_of_getLast? hend)
    cases hnewline
  · obtain ⟨hlines, hunfinished⟩ := linesOf_end (s.content.take s.pos) hpre
    have hpretrim : trimEnd s.readLine = trimEnd pre := by
      rw [hline]
      exact trimEnd_concat rfl pre
    rw [hstart, List.nil_append, shown_singleton, if_neg (hpretrim ▸ htrim), ← hline] at hlines
    rw [← hline] at hunfinished
    refine h.advance ?_ ?_
    · rw [h.sent hrun, hlines, hpretrim]
    · rw [hunfinished]
      exact fun b hb => absurd hb List.not_mem_nil

theorem Tail.Known.read (h : s.Known) (hrun : s.status = .running) {receiving : Bool}
    (hline : s.WholeLine (.read receiving)) : (s.read receiving).Known := by
  unfold Tail.read
  split_ifs with hvalid hempty hshrank htrim hreceiving
  -- Bytes that are not UTF-8 end the run.
  · exact ⟨h.bound, h.lines, Status.noConfusion, Status.noConfusion⟩
  -- Files only grow here.
  · exact absurd h.bound (Nat.not_le_of_lt hshrank)
  · exact h
  · exact h.skip hrun htrim
  · rcases hline with hinvalid | hends | hclosed | ⟨hstart, hend⟩
    · exact absurd hinvalid hvalid
    · exact absurd hends htrim
    · rw [hreceiving] at hclosed
      cases hclosed
    · exact h.send hrun htrim hstart hend
  -- Nobody receives any more, which ends the run too.
  · have hlen := (readLine_at_pos s).length_le
    rw [List.length_drop] at hlen
    refine ⟨?_, h.lines, Status.noConfusion, Status.noConfusion⟩
    show s.pos+s.readLine.length ≤ s.content.length
    have hbound := h.bound
    omega

/-- A part of a line that is sent is one line too many, or not the line of the file. -/
theorem Tail.Known.cut (h : s.Known) (hrun : s.status = .running) (htrim : trimEnd s.readLine ≠ [])
    (hcut : ¬ (unfinished (s.content.take s.pos) = [] ∧ s.readLine.getLast? = some 0x0a))
    {p : List UInt8} (hp : p <+: s.content) : s.sent ++ [trimEnd s.readLine] ≠ linesOf p := by
  intro heq
  have hsent := h.sent hrun
  have hshort {q : List UInt8} (hpq : p <+: q) (hq : linesOf q = s.sent) : False := by
    have hle := (linesOf_mono hpq).length_le
    rw [← heq, hq, List.length_append, List.length_singleton] at hle
    omega
  rcases readLine_cases s with ⟨hrest, hpart⟩ | ⟨pre, hline, hpre⟩
  · -- The file has no further newline.
    obtain ⟨hlines, -⟩ := linesOf_part (s.content.take s.pos) hpart
    rw [hrest, List.take_append_drop] at hlines
    exact hshort hp (hlines.trans hsent.symm)
  · have hstart : unfinished (s.content.take s.pos) ≠ [] := by
      intro hnil
      exact hcut ⟨hnil, by rw [hline, List.getLast?_concat]⟩
    obtain ⟨hlines, -⟩ := linesOf_end (s.content.take s.pos) hpre
    obtain ⟨hbefore, -⟩ := linesOf_part (s.content.take s.pos) hpre
    have hpretrim : trimEnd s.readLine = trimEnd pre := by
      rw [hline]
      exact trimEnd_concat rfl pre
    have hne : trimEnd pre ≠ [] := hpretrim ▸ htrim
    rw [shown_singleton, trimEnd_append hne, if_neg (by simp [hne])] at hlines
    -- A start of the file that has the line has it with what was read before.
    have hlong (hq : s.content.take s.pos ++ (pre ++ [0x0a]) <+: p) : False := by
      have hprefix := linesOf_mono hq
      rw [hlines, ← heq, hpretrim, hsent] at hprefix
      have hsame := hprefix.eq_of_length (by rw [List.length_append, List.length_append]; rfl)
      have hhead := List.append_cancel_left hsame
      exact hstart (List.append_left_eq_self.mp (List.head_eq_of_cons_eq hhead))
    have hq : s.content.take s.pos ++ (pre ++ [0x0a]) <+: s.content := by
      rw [← hline, ← take_readLine s]
      exact List.take_prefix _ _
    rcases List.prefix_or_prefix_of_prefix hp hq with hpq | hqp
    · rw [← List.append_assoc] at hpq
      rcases List.prefix_concat_iff.mp hpq with hsame | hpq
      · exact hlong (by rw [hsame, List.append_assoc])
      · exact hshort hpq (hbefore.trans hsent.symm)
    · exact hlong hqp

theorem Tail.Known.wholeLine (h : s.Known) (hrun : s.status = .running) {receiving : Bool}
    (hexact : (s.read receiving).Exact) : s.WholeLine (.read receiving) := by
  by_contra hnot
  obtain ⟨hvalid, hnot⟩ := not_or.mp hnot
  obtain ⟨htrim, hnot⟩ := not_or.mp hnot
  obtain ⟨hreceiving, hcut⟩ := not_or.mp hnot
  have hne : s.readLine ≠ [] := by
    intro hnil
    rw [hnil] at htrim
    exact htrim rfl
  obtain ⟨p, hp, hlines⟩ := hexact.lines
  rw [Tail.read, if_neg hvalid, if_neg hne, if_neg htrim,
    if_pos (Bool.not_eq_false _ ▸ hreceiving)] at hp hlines
  exact h.cut hrun htrim hcut hp hlines

/-- Every line is sent once, at every moment, exactly when no read cuts a line. -/
theorem file_tail_exact_iff {content : List UInt8} {t : Tail} {as : List Event}
    (h : run Tail.step (start content) as = some t) :
    Throughout Tail.step Tail.Exact (start content) as ↔
      Meets Tail.step Tail.WholeLine (start content) as := by
  refine throughout_iff_meets_of (K := Tail.Known) (fun s hs => hs.exact) ?_ ?_
    (known_start content) h
  · intro s a t hs hline ht
    cases a with
    | append bytes =>
      cases ht
      exact hs.append bytes
    | read receiving =>
      rw [Tail.step] at ht
      split_ifs at ht with hrun
      cases ht
      exact hs.read hrun hline
  · intro s a t hs ht hexact
    cases a with
    | append bytes => trivial
    | read receiving =>
      rw [Tail.step] at ht
      split_ifs at ht with hrun
      cases ht
      exact hs.wholeLine hrun hexact

/-- Two lines are appended in one piece and read. -/
theorem file_tail_two_lines :
    ∃ t, run Tail.step (start []) [.append [0x61, 0x0d, 0x0a, 0x62, 0x0a], .read true, .read true,
      .read true] = some t ∧ t.sent = [[0x61], [0x62]] ∧ t.Exact := by
  have hiff := @file_tail_exact_iff [] _
    [.append [0x61, 0x0d, 0x0a, 0x62, 0x0a], .read true, .read true, .read true] rfl
  refine ⟨_, rfl, by decide +kernel, ?_⟩
  refine (hiff.mpr ?_).last rfl
  refine Meets.cons trivial rfl (Meets.cons ?_ rfl (Meets.cons ?_ rfl (Meets.cons ?_ rfl trivial)))
  · exact .inr (.inr (.inr (by decide +kernel)))
  · exact .inr (.inr (.inr (by decide +kernel)))
  · exact .inr (.inl (by decide +kernel))

/-- The file has the one line `abc`, and `ab` and `c` are sent: the reader came between two
appends. -/
theorem file_tail_cuts_line :
    ∃ t, run Tail.step (start []) [.append [0x61, 0x62], .read true, .append [0x63, 0x0a],
      .read true] = some t ∧ t.sent = [[0x61, 0x62], [0x63]] ∧
      linesOf t.content = [[0x61, 0x62, 0x63]] ∧ t.pos = t.content.length ∧ ¬ t.Exact := by
  refine ⟨_, rfl, by decide +kernel, by decide +kernel, by decide +kernel, ?_⟩
  intro h
  exact absurd (h.all rfl rfl) (by decide +kernel)

end CairnObs.FileTail
