import Laqista.Lib.Iterator
import Laqista.Monitor.Apple
import Laqista.Monitor.Panics
import Laqista.Monitor.Units

/-! # The readers of the two monitors

A monitor reads the output of a child process line by line. A record of radeontop is a line, behind
a header; a record of powermetrics is a document of several lines. Each reader is an iterator in a
loop that sends what it is given, and each gives nothing for a record that it cannot read, which
ends the loop as the end of the output does.

`readers_iff`: the readers give what the well-formed records say exactly if nothing well-formed
follows a malformed record, and the Radeon monitor reaches its `unreachable!` with lines left where
the first malformed record is not the last. -/

namespace Laqista.Monitor

open Laqista.Proto Laqista.Lib Laqista.Lib.Parser

/-- The lines that the child is still going to print, each with its text or with the error of
reading it. -/
abbrev StdoutLines := List (Except String String)

/-! ### Radeon -/

/-- `radeon::MetricsReader`. -/
structure RadeonReader where
  inner : StdoutLines
  seenHeader : Bool
  deriving DecidableEq

namespace RadeonReader

def new (lines : StdoutLines) : RadeonReader := ⟨lines, false⟩

/-- The end of the lines is an error as well, and both are only printed. -/
def nextInner (r : RadeonReader) : Option String × RadeonReader :=
  match r.inner with
  | [] => (none, r)
  | .error _ :: lines => (none, { r with inner := lines })
  | .ok line :: lines => (some line, { r with inner := lines })

def skipHeader (r : RadeonReader) : Except Panic (String × RadeonReader) :=
  match r.nextInner with
  | (none, _) => .error ⟨"EOF"⟩
  | (some line, r) =>
    match headerLine line.toList with
    | .ok _ _ => .ok (line, r)
    | .error _ => .error ⟨"attempt to skip a non-header line"⟩
    | .panic message => .error ⟨message⟩

/-- `Iterator::next`. -/
def next (r : RadeonReader) : Except Panic (Option RadeonMetrics × RadeonReader) :=
  match r.nextInner with
  | (none, r) => .ok (none, r)
  | (some line, r) =>
    match metricsLine line.toList with
    | .ok _ metrics => .ok (some metrics, r)
    | .error _ => .ok (none, r)
    | .panic message => .error ⟨message⟩

end RadeonReader

/-- The body of the loop in `RadeonMonitor::run`, after the windows that are sent. Whether the
channel takes another one is up to the receiver. -/
def sendWindow (send : List MonitorWindow → MonitorWindow → Except String Unit)
    (sent : List MonitorWindow) (metrics : RadeonMetrics) : Except Panic (List MonitorWindow) :=
  match metrics.intoWindow with
  | .error p => .error p
  | .ok window =>
    match send sent window with
    | .ok () => .ok (sent ++ [window])
    | .error e => .error ⟨"failed to send metrics: " ++ e⟩

/-- `RadeonMonitor::run` reaches its `unreachable!` with these lines left. -/
def ReachesUnreachable (send : List MonitorWindow → MonitorWindow → Except String Unit)
    (stdout left : StdoutLines) : Prop :=
  ∃ header reader reader' sent, (RadeonReader.new stdout).skipHeader = .ok (header, reader) ∧
    Loop RadeonReader.next (sendWindow send) reader [] (.ok (reader', sent)) ∧ reader'.inner = left

/-! ### Apple -/

def isIdleRatio (line : String) : Bool := "<key>idle_ratio</key>".toList.isPrefixOf line.toList

def plistEnd : String := "</plist>"

section

-- `plist::from_bytes`, with the text of the error
variable (fromBytes : List Char → Except String PowerMetrics)

/-- `parse`. -/
def parsePlist (buff : List Char) : Except Panic (Except String MetricsWindow) :=
  match buff with
  | [] => .error ⟨"index out of bounds: the len is 0 but the index is 0"⟩
  | c :: cs =>
    match fromBytes (if c = Char.ofNat 0 then cs else buff) with
    | .error e => .ok (.error e)
    | .ok metrics => metrics.intoMetricsWindow.map .ok

/-- The loop of `Iterator::next`, with the buffer and `have_seen_idle_ratio`. -/
def nextFrom : StdoutLines → List Char → Bool → Except Panic (Option MetricsWindow × StdoutLines)
  | [], _, _ => .ok (none, [])
  | .error e :: _, _, _ => .error ⟨"failed to read line: " ++ e⟩
  | .ok line :: lines, buff, seen =>
    if isIdleRatio line ∧ seen then nextFrom lines buff seen
    else if line = plistEnd then
      (parsePlist fromBytes (buff ++ line.toList)).map fun parsed => (parsed.toOption, lines)
    else nextFrom lines (buff ++ line.toList) (seen || isIdleRatio line)

/-- `Iterator::next` of `apple::MetricsReader`, which is the lines that are left. -/
def nextPlist (inner : StdoutLines) : Except Panic (Option MetricsWindow × StdoutLines) :=
  nextFrom fromBytes inner [] false

end

/-! ### The lines of radeontop -/

/-- What a line says, if it is well-formed. -/
def metricsOf : Except String String → Option RadeonMetrics
  | .error _ => none
  | .ok line =>
    match metricsLine line.toList with
    | .ok _ metrics => some metrics
    | .error _ => none
    | .panic _ => none

theorem metricsOf_of_ok {line : String} {rest : List Char} {m : RadeonMetrics}
    (h : metricsLine line.toList = .ok rest m) : metricsOf (.ok line) = some m := by
  unfold metricsOf
  dsimp only
  rw [h]

/-- The parser panics at the line. -/
def PanicsAt (record : Except String String) : Prop :=
  ∃ line, record = .ok line ∧ Panicking line.toList

/-- What the reader makes of a line. -/
def readLine : Except String String → Except Panic (Option RadeonMetrics)
  | .error _ => .ok none
  | .ok line =>
    match metricsLine line.toList with
    | .ok _ metrics => .ok (some metrics)
    | .error _ => .ok none
    | .panic message => .error ⟨message⟩

theorem readLine_some_iff {record : Except String String} {m : RadeonMetrics} :
    readLine record = .ok (some m) ↔ metricsOf record = some m := by
  rcases record with e | line
  · simp [readLine, metricsOf]
  · rcases h : metricsLine line.toList with ⟨rest, m'⟩ | err | message
    · simp [readLine, metricsOf, h]
    · simp [readLine, metricsOf, h]
    · simp [readLine, metricsOf, h]

theorem readLine_none_iff {record : Except String String} :
    readLine record = .ok none ↔ metricsOf record = none ∧ ¬ PanicsAt record := by
  unfold PanicsAt
  simp only [← panics_metricsLine]
  rcases record with e | line
  · simp [readLine, metricsOf]
  · rcases h : metricsLine line.toList with ⟨rest, m'⟩ | err | message
    · simp [readLine, metricsOf, h]
    · simp [readLine, metricsOf, h, Panics]
    · simp [readLine, metricsOf, h, Panics]

theorem framed_radeon (seen : Bool) :
    Framed RadeonReader.next readLine fun records => ⟨records, seen⟩ := by
  refine ⟨rfl, fun record records => ?_⟩
  rcases record with e | line
  · rfl
  · unfold RadeonReader.next readLine
    dsimp only [RadeonReader.nextInner]
    rcases metricsLine line.toList with ⟨rest, m⟩ | err | message
    · rfl
    · rfl
    · rfl

theorem headerLine_dumping (name : String) :
    headerLine ("Dumping to" ++ name).toList = nextline ("Dumping to" ++ name).toList := by
  unfold headerLine
  rw [if_pos]
  rw [String.toList_append, List.isPrefixOf_iff_prefix]
  exact List.prefix_append _ _

theorem skipHeader_dumping (name : String) (records : StdoutLines) :
    (RadeonReader.new (.ok ("Dumping to" ++ name) :: records)).skipHeader =
      .ok ("Dumping to" ++ name, ⟨records, false⟩) := by
  unfold RadeonReader.skipHeader
  dsimp only [RadeonReader.nextInner, RadeonReader.new]
  rw [headerLine_dumping]
  rfl

/-- Behind the header, the iterator gives the metrics of the well-formed lines. -/
def RadeonYields (header : String) (records : StdoutLines) : Prop :=
  ∃ reader reader' ms,
    (RadeonReader.new (.ok header :: records)).skipHeader = .ok (header, reader) ∧
    Loop RadeonReader.next collect reader [] (.ok (reader', ms)) ∧ ms = records.filterMap metricsOf

/-- **The iterator gives what the well-formed lines say exactly if they are in front of the
malformed ones**, at the first of which the parser does not panic. -/
theorem radeonYields_iff (name : String) (records : StdoutLines) :
    RadeonYields ("Dumping to" ++ name) records ↔
      ∃ goods bads, records = goods ++ bads ∧ (∀ r ∈ goods, ∃ m, metricsOf r = some m) ∧
        (∀ r ∈ bads, metricsOf r = none) ∧ ∀ r ∈ bads.head?, ¬ PanicsAt r := by
  have hloop : RadeonYields ("Dumping to" ++ name) records ↔
      ∃ reader ms, Loop RadeonReader.next collect ⟨records, false⟩ [] (.ok (reader, ms)) ∧
        ms.map id = records.filterMap metricsOf := by
    unfold RadeonYields
    rw [skipHeader_dumping]
    simp only [List.map_id]
    constructor
    · rintro ⟨reader, reader', ms, hskip, hloop, hms⟩
      obtain ⟨-, rfl⟩ := Prod.ext_iff.mp (Except.ok.inj hskip)
      exact ⟨reader', ms, hloop, hms⟩
    · rintro ⟨reader', ms, hloop, hms⟩
      exact ⟨_, reader', ms, rfl, hloop, hms⟩
  rw [hloop]
  exact (framed_radeon false).collects_iff (fun r m => readLine_some_iff.mp)
    (fun r => exists_congr fun m => readLine_some_iff) fun r => readLine_none_iff

/-- No malformed line is in front of others, unless the parser panics at it, or a window of the
lines before cannot be represented. -/
def MalformedIsLast (records : StdoutLines) : Prop :=
  ∀ goods bad rest, records = goods ++ bad :: rest →
    (∀ r ∈ goods, ∃ m, metricsOf r = some m ∧ ∃ w, m.intoWindow = .ok w) →
    metricsOf bad = none → ¬ PanicsAt bad → rest = []

/-- What is sent has been a window. -/
theorem intoWindow_of_sent {send : List MonitorWindow → MonitorWindow → Except String Unit}
    {ms : List RadeonMetrics} {sent sent' : List MonitorWindow}
    (h : ms.foldlM (sendWindow send) sent = .ok sent') :
    ∀ m ∈ ms, ∃ w, m.intoWindow = .ok w := by
  induction ms generalizing sent with
  | nil => simp
  | cons m ms ih =>
    rw [List.foldlM_cons] at h
    obtain ⟨sent₁, hsend, hrest⟩ := bind_eq_ok.mp h
    intro m' hm'
    rcases List.mem_cons.mp hm' with rfl | hm'
    · rcases hw : m'.intoWindow with p | w
      · simp [sendWindow, hw] at hsend
      · exact ⟨w, rfl⟩
    · exact ih hrest m' hm'

/-- A receiver that takes everything. -/
theorem sent_of_intoWindow {ms : List RadeonMetrics} (h : ∀ m ∈ ms, ∃ w, m.intoWindow = .ok w)
    (sent : List MonitorWindow) :
    ∃ sent', ms.foldlM (sendWindow fun _ _ => .ok ()) sent = .ok sent' := by
  induction ms generalizing sent with
  | nil => exact ⟨sent, rfl⟩
  | cons m ms ih =>
    obtain ⟨w, hw⟩ := h m (by simp)
    have hsend : sendWindow (fun _ _ => .ok ()) sent m = .ok (sent ++ [w]) := by
      unfold sendWindow
      rw [hw]
    rw [List.foldlM_cons, hsend]
    exact ih (fun m' hm' => h m' (List.mem_cons_of_mem _ hm')) (sent ++ [w])

theorem reachesUnreachable_iff {name : String} {records left : StdoutLines}
    {send : List MonitorWindow → MonitorWindow → Except String Unit} :
    ReachesUnreachable send (.ok ("Dumping to" ++ name) :: records) left ↔
      ∃ sent, overRecords readLine (sendWindow send) records [] = .ok (left, sent) := by
  unfold ReachesUnreachable
  rw [skipHeader_dumping]
  constructor
  · rintro ⟨header, reader, reader', sent, hskip, hloop, rfl⟩
    obtain ⟨-, rfl⟩ := Prod.ext_iff.mp (Except.ok.inj hskip)
    obtain ⟨left, hover, rfl⟩ := (framed_radeon false).loop_ok_iff.mp hloop
    exact ⟨sent, hover⟩
  · rintro ⟨sent, hover⟩
    exact ⟨_, _, _, sent, rfl, (framed_radeon false).loop_ok_iff.mpr ⟨left, hover, rfl⟩, rfl⟩

/-- **The loop reaches `unreachable!` with lines left exactly behind a malformed line in front of
others.** -/
theorem unreachable_iff (name : String) (records : StdoutLines) :
    (∀ send left, ReachesUnreachable send (.ok ("Dumping to" ++ name) :: records) left →
      left = []) ↔ MalformedIsLast records := by
  simp only [reachesUnreachable_iff, overRecords_ok_iff]
  constructor
  · rintro h goods bad rest rfl hgoods hbad hpanics
    simp only [← readLine_some_iff] at hgoods
    have hread : ∃ ms, ReadTo readLine goods ms :=
      exists_readTo.mpr fun r hr => (hgoods r hr).imp fun m hm => hm.1
    obtain ⟨ms, hms⟩ := hread
    obtain ⟨sent, hsent⟩ := sent_of_intoWindow (hms.forall_mem_iff.mpr hgoods) []
    exact h _ rest ⟨sent, goods, ms, hms, hsent,
      .inr ⟨bad, rfl, readLine_none_iff.mpr ⟨hbad, hpanics⟩⟩⟩
  · rintro h send left ⟨sent, goods, ms, hms, hsent, ⟨rfl, rfl⟩ | ⟨bad, rfl, hbad⟩⟩
    · rfl
    · have hwindows := hms.forall_mem_iff.mp (intoWindow_of_sent hsent)
      simp only [readLine_some_iff] at hwindows
      obtain ⟨hnone, hpanics⟩ := readLine_none_iff.mp hbad
      exact h goods bad left rfl hwindows hnone hpanics

/-! ### The documents of powermetrics -/

/-- The lines of a document, of which only the last one ends it. -/
structure Document where
  body : StdoutLines
  inside : .ok plistEnd ∉ body

def Document.lines (d : Document) : StdoutLines := d.body ++ [.ok plistEnd]

/-- Of the elements with `p`, only the first one. -/
def keepFirst {α : Type} (p : α → Bool) : List α → List α
  | [] => []
  | a :: as => if p a then a :: as.filter (fun b => !p b) else a :: keepFirst p as

/-- The text without a NUL in front. -/
def withoutNul : List Char → List Char
  | [] => []
  | c :: cs => if c = Char.ofNat 0 then cs else c :: cs

/-- The text of a document that is parsed: powermetrics writes a NUL in front of it, and some lines
with an idle ratio twice. -/
def plistText (lines : List String) : List Char :=
  withoutNul ((keepFirst isIdleRatio lines).flatMap String.toList ++ plistEnd.toList)

/-- The texts of the lines, if each can be read. -/
def texts : StdoutLines → Option (List String)
  | [] => some []
  | .error _ :: _ => none
  | .ok line :: lines => (texts lines).map (line :: ·)

section

variable (fromBytes : List Char → Except String PowerMetrics)

/-- What a document says, if it is well-formed. -/
def Document.metrics (d : Document) : Option PowerMetrics :=
  (texts d.body).bind fun lines => (fromBytes (plistText lines)).toOption

/-- The lines that are kept when an idle ratio may have been seen. -/
def keptFrom (seen : Bool) (lines : List String) : List String :=
  if seen then lines.filter (fun line => !isIdleRatio line) else keepFirst isIdleRatio lines

theorem keptFrom_cons (seen : Bool) (line : String) (lines : List String) :
    keptFrom seen (line :: lines) =
      if isIdleRatio line ∧ seen then keptFrom seen lines
      else line :: keptFrom (seen || isIdleRatio line) lines := by
  unfold keptFrom
  rcases hi : isIdleRatio line with _ | _
  · rcases seen with _ | _
    · simp [keepFirst, hi]
    · simp [hi]
  · rcases seen with _ | _
    · simp [keepFirst, hi]
    · simp [hi]

theorem parsePlist_end (cs : List Char) :
    parsePlist fromBytes (cs ++ plistEnd.toList) =
      match fromBytes (withoutNul (cs ++ plistEnd.toList)) with
      | .error e => .ok (.error e)
      | .ok metrics => metrics.intoMetricsWindow.map .ok := by
  unfold parsePlist withoutNul
  rcases h : cs ++ plistEnd.toList with _ | ⟨c, cs'⟩
  · simp [plistEnd] at h
  · rfl

/-- The last line of a document ends the loop. -/
theorem nextFrom_end (rest : StdoutLines) (buff : List Char) (seen : Bool) :
    nextFrom fromBytes (.ok plistEnd :: rest) buff seen =
      (parsePlist fromBytes (buff ++ plistEnd.toList)).map
        fun parsed => (parsed.toOption, rest) := by
  have hidle : isIdleRatio plistEnd = false := by decide
  unfold nextFrom
  rw [if_neg (by simp [hidle]), if_pos rfl]

/-- Any other line is skipped or goes into the buffer. -/
theorem nextFrom_cons {line : String} (hne : (.ok plistEnd : Except String String) ≠ .ok line)
    (rest : StdoutLines) (buff : List Char) (seen : Bool) :
    nextFrom fromBytes (.ok line :: rest) buff seen =
      if isIdleRatio line ∧ seen then nextFrom fromBytes rest buff seen
      else nextFrom fromBytes rest (buff ++ line.toList) (seen || isIdleRatio line) := by
  have hline : line ≠ plistEnd := fun heq => hne (by rw [heq])
  rw [nextFrom, if_neg hline]

/-- The lines of a document are taken, and no others. -/
theorem nextFrom_append {body : StdoutLines} (h : .ok plistEnd ∉ body) (rest : StdoutLines)
    (buff : List Char) (seen : Bool) :
    nextFrom fromBytes (body ++ .ok plistEnd :: rest) buff seen =
      (nextFrom fromBytes (body ++ [.ok plistEnd]) buff seen).map fun x => (x.1, rest) := by
  induction body generalizing buff seen with
  | nil =>
    rw [List.nil_append, List.nil_append, nextFrom_end, nextFrom_end, map_map]
    rfl
  | cons record body ih =>
    obtain ⟨hne, hbody⟩ := List.ne_and_not_mem_of_not_mem_cons h
    rcases record with e | line
    · rfl
    · rw [List.cons_append, List.cons_append, nextFrom_cons fromBytes hne,
        nextFrom_cons fromBytes hne]
      split_ifs
      · exact ih hbody buff seen
      · exact ih hbody _ _

/-- The buffer at the end of a document that can be read. -/
theorem nextFrom_texts {body : StdoutLines} (h : .ok plistEnd ∉ body) {lines : List String}
    (hlines : texts body = some lines) (buff : List Char) (seen : Bool) :
    nextFrom fromBytes (body ++ [.ok plistEnd]) buff seen =
      (parsePlist fromBytes (buff ++ ((keptFrom seen lines).flatMap String.toList ++
        plistEnd.toList))).map fun parsed => (parsed.toOption, []) := by
  induction body generalizing buff seen lines with
  | nil =>
    have hkept : keptFrom seen [] = [] := by
      unfold keptFrom
      split_ifs
      · rfl
      · rfl
    obtain rfl := Option.some.inj hlines
    rw [List.nil_append, nextFrom_end, hkept, List.flatMap_nil, List.nil_append]
  | cons record body ih =>
    obtain ⟨hne, hbody⟩ := List.ne_and_not_mem_of_not_mem_cons h
    rcases record with e | line
    · simp [texts] at hlines
    · obtain ⟨lines', hlines', rfl⟩ := Option.map_eq_some_iff.mp hlines
      rw [List.cons_append, nextFrom_cons fromBytes hne, keptFrom_cons]
      split_ifs
      · exact ih hbody hlines' buff seen
      · rw [ih hbody hlines', List.flatMap_cons, List.append_assoc, List.append_assoc]

/-- Reading a line that is no text panics. -/
theorem nextFrom_unreadable {body : StdoutLines} (h : .ok plistEnd ∉ body)
    (hlines : texts body = none) (rest : StdoutLines) (buff : List Char) (seen : Bool) :
    ∃ p, nextFrom fromBytes (body ++ rest) buff seen = .error p := by
  induction body generalizing buff seen with
  | nil => simp [texts] at hlines
  | cons record body ih =>
    obtain ⟨hne, hbody⟩ := List.ne_and_not_mem_of_not_mem_cons h
    rcases record with e | line
    · exact ⟨_, rfl⟩
    · have hlines' : texts body = none := Option.map_eq_none_iff.mp hlines
      rw [List.cons_append, nextFrom_cons fromBytes hne]
      split_ifs
      · exact ih hbody hlines' buff seen
      · exact ih hbody hlines' _ _

/-- What the reader makes of a document. -/
def readDocument (d : Document) : Except Panic (Option MetricsWindow) :=
  (nextFrom fromBytes d.lines [] false).map Prod.fst

theorem framed_apple : Framed (nextPlist fromBytes) (readDocument fromBytes)
    fun docs => docs.flatMap Document.lines := by
  refine ⟨rfl, fun d docs => ?_⟩
  have happend := nextFrom_append fromBytes d.inside (docs.flatMap Document.lines) [] false
  unfold nextPlist readDocument
  rw [List.flatMap_cons, Document.lines, List.append_assoc, List.singleton_append, happend, map_map]
  rfl

/-- No line of the document is unreadable. -/
def Document.Readable (d : Document) : Prop := ∀ record ∈ d.body, ∃ line, record = .ok line

theorem exists_texts {body : StdoutLines} :
    (∃ lines, texts body = some lines) ↔ ∀ record ∈ body, ∃ line, record = .ok line := by
  induction body with
  | nil => simp [texts]
  | cons record body ih =>
    rw [List.forall_mem_cons, ← ih]
    rcases record with e | line
    · simp [texts]
    · simp [texts]

theorem texts_map (lines : List String) : texts (lines.map .ok) = some lines := by
  induction lines with
  | nil => rfl
  | cons line lines ih =>
    show (texts (lines.map .ok)).map (line :: ·) = _
    rw [ih]
    rfl

/-- A document that can be read gives its window, if it is well-formed. -/
theorem readDocument_texts {d : Document} {lines : List String} (h : texts d.body = some lines) :
    readDocument fromBytes d =
      match fromBytes (plistText lines) with
      | .error _ => .ok none
      | .ok metrics => metrics.intoMetricsWindow.map some := by
  have hread := nextFrom_texts fromBytes d.inside h [] false
  have htext : withoutNul ((keptFrom false lines).flatMap String.toList ++ plistEnd.toList) =
      plistText lines := rfl
  unfold readDocument Document.lines
  rw [hread, List.nil_append, parsePlist_end, htext, map_map]
  rcases fromBytes (plistText lines) with e | m
  · rfl
  · dsimp only
    rw [map_map]
    rfl

theorem readDocument_unreadable {d : Document} (h : ¬ d.Readable) :
    ∃ p, readDocument fromBytes d = .error p := by
  have htexts : texts d.body = none := by
    rcases ht : texts d.body with _ | lines
    · rfl
    · exact absurd (exists_texts.mp ⟨lines, ht⟩) h
  obtain ⟨p, hp⟩ := nextFrom_unreadable fromBytes d.inside htexts [.ok plistEnd] [] false
  refine ⟨p, ?_⟩
  unfold readDocument Document.lines
  rw [hp]
  rfl

theorem metrics_unreadable {d : Document} (h : ¬ d.Readable) : d.metrics fromBytes = none := by
  unfold Document.metrics
  rcases ht : texts d.body with _ | lines
  · rfl
  · exact absurd (exists_texts.mp ⟨lines, ht⟩) h

theorem readDocument_none_iff {d : Document} :
    readDocument fromBytes d = .ok none ↔ d.metrics fromBytes = none ∧ d.Readable := by
  by_cases hread : d.Readable
  · obtain ⟨lines, hlines⟩ := exists_texts.mpr hread
    rw [readDocument_texts fromBytes hlines, Document.metrics, hlines, Option.bind_some]
    rcases fromBytes (plistText lines) with e | m
    · simp [Except.toOption, hread]
    · rcases hw : m.intoMetricsWindow with p | w
      · simp [Except.toOption, Except.map, hw]
      · simp [Except.toOption, Except.map, hw]
  · obtain ⟨p, hp⟩ := readDocument_unreadable fromBytes hread
    simp [hp, hread]

theorem readDocument_some_iff {d : Document} {w : MetricsWindow} :
    readDocument fromBytes d = .ok (some w) ↔
      ∃ m, d.metrics fromBytes = some m ∧ m.intoMetricsWindow = .ok w := by
  by_cases hread : d.Readable
  · obtain ⟨lines, hlines⟩ := exists_texts.mpr hread
    rw [readDocument_texts fromBytes hlines, Document.metrics, hlines, Option.bind_some]
    rcases fromBytes (plistText lines) with e | m
    · simp [Except.toOption]
    · rcases hw : m.intoMetricsWindow with p | w'
      · simp [Except.toOption, Except.map, hw]
      · simp [Except.toOption, Except.map, hw]
  · obtain ⟨p, hp⟩ := readDocument_unreadable fromBytes hread
    simp [hp, metrics_unreadable fromBytes hread]

/-- The iterator gives the windows of the well-formed documents. -/
def AppleYields (docs : List Document) : Prop :=
  ∃ left windows, Loop (nextPlist fromBytes) collect (docs.flatMap Document.lines) []
      (.ok (left, windows)) ∧
    windows.map MetricsWindow.metrics = docs.filterMap (Document.metrics fromBytes)

theorem intoMetricsWindow_metrics {m : PowerMetrics} {w : MetricsWindow}
    (h : m.intoMetricsWindow = .ok w) : w.metrics = m := by
  unfold PowerMetrics.intoMetricsWindow at h
  dsimp only at h
  split at h
  · obtain rfl := Except.ok.inj h
    rfl
  · simp at h

/-- **The iterator gives what the well-formed documents say exactly if they are in front of the
malformed ones**, the first of which can be read, and if their windows can be represented. -/
theorem appleYields_iff (docs : List Document) :
    AppleYields fromBytes docs ↔ ∃ goods bads, docs = goods ++ bads ∧
      (∀ d ∈ goods, ∃ m, d.metrics fromBytes = some m ∧ ∃ w, m.intoMetricsWindow = .ok w) ∧
      (∀ d ∈ bads, d.metrics fromBytes = none) ∧ ∀ d ∈ bads.head?, d.Readable := by
  refine (framed_apple fromBytes).collects_iff (fun d w hd => ?_) (fun d => ?_)
    fun d => readDocument_none_iff fromBytes
  · obtain ⟨m, hm, hw⟩ := (readDocument_some_iff fromBytes).mp hd
    rw [hm, intoMetricsWindow_metrics hw]
  · simp only [readDocument_some_iff]
    constructor
    · rintro ⟨w, m, hm, hw⟩
      exact ⟨m, hm, w, hw⟩
    · rintro ⟨m, hm, w, hw⟩
      exact ⟨w, m, hm, hw⟩

end

/-! ### Both readers -/

/-- **A malformed record ends the monitoring**: each iterator gives what the well-formed records say
exactly if these are in front of the malformed ones, the first of which does not panic, and
`unreachable!` is reached with lines left exactly behind a malformed line in front of others. -/
theorem readers_iff (fromBytes : List Char → Except String PowerMetrics) (name : String)
    (records : StdoutLines) (docs : List Document) :
    (RadeonYields ("Dumping to" ++ name) records ↔
      ∃ goods bads, records = goods ++ bads ∧ (∀ r ∈ goods, ∃ m, metricsOf r = some m) ∧
        (∀ r ∈ bads, metricsOf r = none) ∧ ∀ r ∈ bads.head?, ¬ PanicsAt r) ∧
    ((∀ send left, ReachesUnreachable send (.ok ("Dumping to" ++ name) :: records) left →
      left = []) ↔ MalformedIsLast records) ∧
    (AppleYields fromBytes docs ↔ ∃ goods bads, docs = goods ++ bads ∧
      (∀ d ∈ goods, ∃ m, d.metrics fromBytes = some m ∧ ∃ w, m.intoMetricsWindow = .ok w) ∧
      (∀ d ∈ bads, d.metrics fromBytes = none) ∧ ∀ d ∈ bads.head?, d.Readable) :=
  ⟨radeonYields_iff name records, unreachable_iff name records, appleYields_iff fromBytes docs⟩

/-- A malformed record in front of a well-formed one. -/
theorem not_in_front {ρ β : Type} {spec : ρ → Option β} {P : ρ → Prop} {Q : List ρ → Prop}
    (hP : ∀ r, P r → spec r ≠ none) {bad good : ρ} (hbad : spec bad = none)
    (hgood : spec good ≠ none) :
    ¬ ∃ goods bads, [bad, good] = goods ++ bads ∧ (∀ r ∈ goods, P r) ∧
      (∀ r ∈ bads, spec r = none) ∧ Q bads := by
  rintro ⟨goods, bads, heq, hgoods, hbads, -⟩
  rcases goods with _ | ⟨r, goods⟩
  · refine hgood (hbads good ?_)
    rw [← show [bad, good] = bads from heq]
    simp
  · obtain rfl : bad = r := (List.cons.inj heq).1
    exact hP bad (hgoods bad (by simp)) hbad

/-- A document of a GPU that is half used. -/
def halfDocument : List String :=
  ["<plist version=\"1.0\">", "<dict>", "<key>elapsed_ns</key><integer>1000000000</integer>",
   "<key>timestamp</key><date>1970-01-01T00:00:00Z</date>", "<key>gpu</key>", "<dict>",
   "<key>freq_hz</key><real>400</real>", "<key>idle_ratio</key><real>0.5</real>",
   "<key>dvfm_states</key>", "<array>", "</array>", "</dict>", "</dict>"]

theorem halfDocument_inside :
    (.ok plistEnd : Except String String) ∉ halfDocument.map Except.ok := by
  simp [plistEnd, halfDocument]

/-- A parser that reads this document, and no others. -/
def readHalf (text : List Char) : Except String PowerMetrics :=
  if text = plistText halfDocument then .ok ⟨⟨1 / 2⟩, 1000000000, epoch⟩
  else .error "malformed document"

/-- An empty line in front of a line, and an unfinished document in front of a document. -/
theorem malformed_first :
    ¬ RadeonYields "Dumping to -" [.ok "", .ok (String.ofList halfLine.text)] ∧
    (∃ send left, ReachesUnreachable send
      [.ok "Dumping to -", .ok "", .ok (String.ofList halfLine.text)] left ∧ left ≠ []) ∧
    ¬ AppleYields readHalf [⟨[.ok "<dict>"], by decide⟩,
      ⟨halfDocument.map Except.ok, halfDocument_inside⟩] := by
  have hname : "Dumping to -" = "Dumping to" ++ " -" := rfl
  have hread : metricsLine (String.ofList halfLine.text).toList = .ok [] halfLine.metrics := by
    rw [String.toList_ofList, metricsLine_text]
  have hline := metricsOf_of_ok hread
  have hempty : readLine (.ok "") = .ok none := rfl
  obtain ⟨hnone, hpanics⟩ := readLine_none_iff.mp hempty
  rw [hname]
  refine ⟨?_, ?_, ?_⟩
  · rw [radeonYields_iff]
    refine not_in_front (fun r hr => ?_) hnone (by simp [hline])
    obtain ⟨m, hm⟩ := hr
    simp [hm]
  · by_contra hall
    push Not at hall
    have hlast := (unreachable_iff _ _).mp hall [] _ _ rfl (by simp) hnone hpanics
    simp at hlast
  · rw [appleYields_iff]
    refine not_in_front (fun r hr => ?_) ?_ ?_
    · obtain ⟨m, hm, -⟩ := hr
      simp [hm]
    · have hother : plistText ["<dict>"] ≠ plistText halfDocument := by decide +kernel
      show (readHalf (plistText ["<dict>"])).toOption = none
      unfold readHalf
      rw [if_neg hother]
      rfl
    · have hread : readHalf (plistText halfDocument) = .ok ⟨⟨1 / 2⟩, 1000000000, epoch⟩ := by
        unfold readHalf
        rw [if_pos rfl]
      unfold Document.metrics
      rw [texts_map, Option.bind_some, hread]
      simp [Except.toOption]

end Laqista.Monitor
