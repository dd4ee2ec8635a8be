/-
**What verification accepts.**

A run that verifies goes through a stream of records and then through a list of expressions.  It
stops at the first record that is at fault, so what comes after that record makes no difference,
not even whether it can be read; and it looks at the list only when all records have passed.  There
it asks for the opposite: no expression may compile, and not even descendant steps are let through.

This module says for every state of the files when such a run succeeds, and otherwise which fault
it reports.

Main definitions:

* `Files.Holds`, `Files.OpeningFault`, `Files.ReadingFault` — what a file holds, and why it cannot
  be read;
* `Json.Equivalent` — equality of documents, the two zeros being one number;
* `QueryRecord.ConfirmedBy`, `QueryRecord.Fault` — what is said of one record;
* `RecordTask.Verified`, `RecordTask.RecordsFault`, `RecordTask.ListFault` — what is said of all
  records, and of the expressions.

Main results:

* `forM_eq_ok_iff`, `forM_eq_error_iff` — how a row of checks ends;
* `RecordTask.verify_eq_ok_iff`, `RecordTask.verify_eq_error_iff` — **the records**;
* `RecordTask.rejectMalformed_eq_ok_iff`, `RecordTask.rejectMalformed_eq_error_iff` — **the list**;
* `RecordTask.run_verification` — **when verification succeeds, and what it reports otherwise**.
-/

import TreePath.Proofs.Command.Replay

set_option relaxedAutoImplicit false
set_option autoImplicit false

namespace TreePath

/-! ### Checks in a row -/

section Checks

variable {ε α β : Type}

/-- What is done after something else fails when either of the two does. -/
theorem bind_eq_error_iff {x : Except ε α} {f : α → Except ε β} {e : ε} :
    x >>= f = .error e ↔ x = .error e ∨ ∃ a, x = .ok a ∧ f a = .error e := by
  cases x with
  | error e' => simp [bind, Except.bind]
  | ok a => simp [bind, Except.bind]

/-- A row of checks succeeds when all of them do. -/
theorem forM_eq_ok_iff {f : α → Except ε Unit} {as : List α} :
    as.forM f = .ok () ↔ ∀ a ∈ as, f a = .ok () := by
  refine ⟨fun h => ?_, forM_eq_ok⟩
  induction as with
  | nil => exact List.forall_mem_nil _
  | cons a as ih =>
      obtain ⟨⟨⟩, ha, has⟩ := bind_eq_ok_iff.1 h
      exact List.forall_mem_cons.2 ⟨ha, ih has⟩

/-- **A row of checks fails at the first that does**, whatever comes after it. -/
theorem forM_eq_error_iff {f : α → Except ε Unit} {as : List α} {e : ε} :
    as.forM f = .error e ↔ ∃ before a after, as = before ++ a :: after ∧
      (∀ b ∈ before, f b = .ok ()) ∧ f a = .error e := by
  constructor
  · intro h
    induction as with
    | nil => cases h
    | cons a as ih =>
        rcases bind_eq_error_iff.1 h with ha | ⟨⟨⟩, ha, has⟩
        · exact ⟨[], a, as, rfl, List.forall_mem_nil _, ha⟩
        · obtain ⟨before, b, after, rfl, hbefore, hb⟩ := ih has
          exact ⟨a :: before, b, after, rfl, List.forall_mem_cons.2 ⟨ha, hbefore⟩, hb⟩
  · rintro ⟨before, a, after, rfl, hbefore, ha⟩
    induction before with
    | nil => exact bind_eq_error_iff.2 (.inl ha)
    | cons b before ih =>
        obtain ⟨hb, hbefore⟩ := List.forall_mem_cons.1 hbefore
        exact bind_eq_error_iff.2 (.inr ⟨(), hb, ih hbefore⟩)

end Checks

/-! ### Reading a file -/

section Reading

variable {α : Type} {decode? : Document → Option α} {files : Files} {file : String}

/-- A file holds one document, which has a certain meaning. -/
def Files.Holds (files : Files) (decode? : Document → Option α) (file : String) (a : α) : Prop :=
  ∃ text, files.read? file = some text ∧ (Document.parse? text.toList).bind decode? = some a

/-- Why a file has no text. -/
inductive Files.OpeningFault (files : Files) (file : String) : RecordError → Prop
  /-- There is nothing of that name. -/
  | missing (h : files.read? file = none) (hdirectory : ¬files.isDirectory file = true) :
      OpeningFault files file (.openFile file)
  /-- It is a directory, which can be opened but not read. -/
  | directory (h : files.isDirectory file = true) : OpeningFault files file (.parse file)

/-- Why a file cannot be read as one document with a meaning. -/
inductive Files.ReadingFault (files : Files) (decode? : Document → Option α) (file : String) :
    RecordError → Prop
  /-- It has no text. -/
  | unread {e : RecordError} (h : files.OpeningFault file e) : ReadingFault files decode? file e
  /-- It holds something else. -/
  | malformed {text : String} (h : files.read? file = some text)
      (hmeans : (Document.parse? text.toList).bind decode? = none) :
      ReadingFault files decode? file (.parse file)

/-- A file has no text, for one of two reasons. -/
theorem openFile_eq_error_iff {e : RecordError} :
    openFile files file = .error e ↔ files.OpeningFault file e := by
  rw [openFile]
  constructor
  · intro h
    split at h
    · next hdirectory =>
        cases h
        exact .directory hdirectory
    · next hdirectory =>
        split at h
        · cases h
        · next hread =>
            cases h
            exact .missing hread hdirectory
  · rintro (⟨hread, hdirectory⟩ | hdirectory)
    · rw [if_neg hdirectory, hread]
    · rw [if_pos hdirectory]

theorem readFile_eq_ok_iff {a : α} :
    readFile decode? files file = .ok a ↔ files.Holds decode? file a := by
  constructor
  · exact exists_text_of_readFile
  · rintro ⟨text, hread, hmeans⟩
    exact readFile_eq_ok hread hmeans

theorem readFile_eq_error_iff {e : RecordError} :
    readFile decode? files file = .error e ↔ files.ReadingFault decode? file e := by
  rw [readFile, bind_eq_error_iff]
  constructor
  · rintro (h | ⟨text, htext, h⟩)
    · exact .unread (openFile_eq_error_iff.1 h)
    · split at h
      · cases h
      · next hmeans =>
          cases h
          exact .malformed (openFile_eq_ok_iff.1 htext) hmeans
  · rintro (h | ⟨hread, hmeans⟩)
    · exact .inl (openFile_eq_error_iff.2 h)
    · refine .inr ⟨_, openFile_eq_ok_iff.2 hread, ?_⟩
      rw [hmeans]
      rfl

/-- A file holds one thing at most. -/
theorem Files.Holds.unique {a b : α} (ha : files.Holds decode? file a)
    (hb : files.Holds decode? file b) : a = b :=
  Except.ok.inj ((readFile_eq_ok_iff.2 ha).symm.trans (readFile_eq_ok_iff.2 hb))

end Reading

/-! ### One record -/

/-- Equality of documents.  Numbers of one kind are compared by their size, which is the same for
both zeros. -/
def Json.Equivalent (a b : Json) : Prop :=
  a.mapNumbers Number.dropZeroSign = b.mapNumbers Number.dropZeroSign

namespace QueryRecord

variable {document : Json} {r : QueryRecord}

/-- A document confirms a record when the path of the record compiles and what it leads to are the
results of the record. -/
def ConfirmedBy (document : Json) (r : QueryRecord) : Prop :=
  ∃ p, compile commandContext r.path = .ok p ∧
    (Json.array (queryResults p document)).Equivalent (.array r.results)

/-- Why a document does not confirm a record. -/
inductive Fault (document : Json) (r : QueryRecord) : RecordError → Prop
  /-- The path does not compile. -/
  | compile {e : SyntaxError} (h : compile commandContext r.path = .error e) :
      Fault document r (.compile r.name e)
  /-- The path leads to something else. -/
  | mismatch {p : Path} (hp : TreePath.compile commandContext r.path = .ok p)
      (h : ¬(Json.array (queryResults p document)).Equivalent (.array r.results)) :
      Fault document r (.mismatch r.name r.results (queryResults p document))

/-- What verification makes of a record whose path compiles. -/
theorem verify_of_compile {p : Path} (hp : TreePath.compile commandContext r.path = .ok p)
    [Decidable ((Json.array (queryResults p document)).Equivalent (.array r.results))] :
    r.verify document =
      if (Json.array (queryResults p document)).Equivalent (.array r.results) then .ok ()
      else .error (.mismatch r.name r.results (queryResults p document)) := by
  have hsame := Json.same_iff (.array (queryResults p document)) (.array r.results)
  rw [Json.same, ← Json.Equivalent] at hsame
  rw [verify, ofQuery, hp]
  simp only [bind, Except.bind, hsame]
  rfl

theorem verify_of_fault {e : SyntaxError}
    (h : TreePath.compile commandContext r.path = .error e) :
    r.verify document = .error (.compile r.name e) := by
  rw [verify, ofQuery, h]
  rfl

theorem verify_eq_ok_iff : r.verify document = .ok () ↔ r.ConfirmedBy document := by
  classical
  cases hp : compile commandContext r.path with
  | error e => simp [verify_of_fault hp, ConfirmedBy, hp]
  | ok p => simp [verify_of_compile hp, ConfirmedBy, hp]

theorem verify_eq_error_iff {e : RecordError} :
    r.verify document = .error e ↔ r.Fault document e := by
  classical
  constructor
  · intro h
    cases hp : compile commandContext r.path with
    | error e' =>
        rw [verify_of_fault hp] at h
        cases h
        exact .compile hp
    | ok p =>
        rw [verify_of_compile hp] at h
        split at h
        · cases h
        · next hne =>
            cases h
            exact .mismatch hp hne
  · rintro (h | ⟨hp, hne⟩)
    · exact verify_of_fault h
    · rw [verify_of_compile hp, if_neg hne]

end QueryRecord

/-! ### All records -/

namespace RecordTask

variable {task : RecordTask} {files : Files}

/-- The document of a task, and its records as far as they can be read. -/
structure Reads (task : RecordTask) (files : Files) (document : Json) (records : List QueryRecord)
    (complete : Bool) : Prop where
  /-- The document is what the data file holds. -/
  data : files.Holds (Json.ofDocument? Json.nestingLimit) task.data document
  /-- The records follow one another in their file. -/
  stream : ∃ text, files.read? task.expected = some text ∧
    StreamOf QueryRecord.ofDocument? text.toList records complete

/-- The records are all that their file holds, and the document confirms them. -/
def Verified (task : RecordTask) (files : Files) (records : List QueryRecord) : Prop :=
  ∃ document, task.Reads files document records true ∧ ∀ r ∈ records, r.ConfirmedBy document

/-- What is found at fault first among the records. -/
inductive RecordsFault (task : RecordTask) (files : Files) : RecordError → Prop
  /-- There is no document to verify records against. -/
  | data {e : RecordError}
      (h : files.ReadingFault (Json.ofDocument? Json.nestingLimit) task.data e) :
      RecordsFault task files e
  /-- The file of records has no text. -/
  | unread {document : Json} {e : RecordError}
      (hdata : files.Holds (Json.ofDocument? Json.nestingLimit) task.data document)
      (h : files.OpeningFault task.expected e) : RecordsFault task files e
  /-- A record is at fault, and those before it are not. -/
  | record {document : Json} {before after : List QueryRecord} {r : QueryRecord} {complete : Bool}
      {e : RecordError} (h : task.Reads files document (before ++ r :: after) complete)
      (hbefore : ∀ b ∈ before, b.ConfirmedBy document) (hr : r.Fault document e) :
      RecordsFault task files e
  /-- After records that are not at fault there is something else. -/
  | malformed {document : Json} {records : List QueryRecord}
      (h : task.Reads files document records false)
      (hrecords : ∀ r ∈ records, r.ConfirmedBy document) :
      RecordsFault task files (.parse task.expected)

/-- What verification makes of the records that it reads. -/
theorem Reads.verify_eq {document : Json} {records : List QueryRecord} {complete : Bool}
    (h : task.Reads files document records complete) :
    task.verify files = (records.forM (QueryRecord.verify document) >>= fun _ =>
      if complete then .ok records.length else .error (.parse task.expected)) := by
  obtain ⟨hdata, text, htext, hstream⟩ := h
  rw [verify, readData, readFile_eq_ok_iff.2 hdata, openFile_eq_ok_iff.2 htext]
  simp only [bind, Except.bind, streamOf_iff_readAll.1 hstream]
  rfl

/-- Where there is a document and a file of records, some records can be read. -/
theorem exists_reads {document : Json} {text : String}
    (hdata : files.Holds (Json.ofDocument? Json.nestingLimit) task.data document)
    (htext : files.read? task.expected = some text) :
    ∃ records complete, task.Reads files document records complete := by
  obtain ⟨records, complete, hstream⟩ := exists_streamOf QueryRecord.ofDocument? text.toList
  exact ⟨records, complete, hdata, text, htext, hstream⟩

/-- **The records are accepted** when their file holds nothing else and each of them is
confirmed. -/
theorem verify_eq_ok_iff {n : Nat} : task.verify files = .ok n ↔
    ∃ records, task.Verified files records ∧ n = records.length := by
  constructor
  · intro h
    have hopened := h
    rw [verify] at hopened
    obtain ⟨document, hdata, hopened⟩ := bind_eq_ok_iff.1 hopened
    obtain ⟨text, htext, -⟩ := bind_eq_ok_iff.1 hopened
    obtain ⟨records, complete, hreads⟩ :=
      exists_reads (readFile_eq_ok_iff.1 hdata) (openFile_eq_ok_iff.1 htext)
    rw [hreads.verify_eq] at h
    obtain ⟨⟨⟩, hrecords, h⟩ := bind_eq_ok_iff.1 h
    cases complete with
    | false => cases h
    | true =>
        cases h
        exact ⟨records, ⟨document, hreads, fun r hr =>
          QueryRecord.verify_eq_ok_iff.1 (forM_eq_ok_iff.1 hrecords r hr)⟩, rfl⟩
  · rintro ⟨records, ⟨document, hreads, hrecords⟩, rfl⟩
    have hall := forM_eq_ok fun r hr => QueryRecord.verify_eq_ok_iff.2 (hrecords r hr)
    rw [hreads.verify_eq, hall]
    rfl

/-- **The records are refused** for the first fault among them. -/
theorem verify_eq_error_iff {e : RecordError} :
    task.verify files = .error e ↔ task.RecordsFault files e := by
  constructor
  · intro h
    have hopened := h
    rw [verify, bind_eq_error_iff] at hopened
    rcases hopened with hdata | ⟨document, hdata, hopened⟩
    · exact .data (readFile_eq_error_iff.1 hdata)
    replace hdata := readFile_eq_ok_iff.1 hdata
    rw [bind_eq_error_iff] at hopened
    rcases hopened with htext | ⟨text, htext, -⟩
    · exact .unread hdata (openFile_eq_error_iff.1 htext)
    obtain ⟨records, complete, hreads⟩ := exists_reads hdata (openFile_eq_ok_iff.1 htext)
    rw [hreads.verify_eq, bind_eq_error_iff] at h
    rcases h with hrecord | ⟨⟨⟩, hrecords, h⟩
    · obtain ⟨before, r, after, rfl, hbefore, hr⟩ := forM_eq_error_iff.1 hrecord
      exact .record hreads (fun b hb => QueryRecord.verify_eq_ok_iff.1 (hbefore b hb))
        (QueryRecord.verify_eq_error_iff.1 hr)
    · cases complete with
      | true => cases h
      | false =>
          cases h
          exact .malformed hreads fun r hr =>
            QueryRecord.verify_eq_ok_iff.1 (forM_eq_ok_iff.1 hrecords r hr)
  · intro h
    cases h with
    | data h =>
        rw [verify, bind_eq_error_iff]
        exact .inl (readFile_eq_error_iff.2 h)
    | unread hdata h =>
        rw [verify, readData, readFile_eq_ok_iff.2 hdata, openFile_eq_error_iff.2 h]
        rfl
    | record hreads hbefore hr =>
        rw [hreads.verify_eq, bind_eq_error_iff, forM_eq_error_iff]
        exact .inl ⟨_, _, _, rfl, fun b hb => QueryRecord.verify_eq_ok_iff.2 (hbefore b hb),
          QueryRecord.verify_eq_error_iff.2 hr⟩
    | malformed hreads hrecords =>
        have hall := forM_eq_ok fun r hr => QueryRecord.verify_eq_ok_iff.2 (hrecords r hr)
        rw [hreads.verify_eq, hall]
        rfl

/-! ### The list of expressions -/

/-- The expressions that a task lists. -/
def Lists (task : RecordTask) (files : Files) (expressions : List String) : Prop :=
  files.Holds (Document.toList? Document.toText?) task.errors expressions

/-- An expression is rejected that does not compile without descendant steps. -/
def Rejected (expression : String) : Prop := ∃ e, compile Context.standard expression = .error e

/-- What is found at fault first with the list of expressions. -/
inductive ListFault (task : RecordTask) (files : Files) : RecordError → Prop
  /-- There is no list of expressions. -/
  | list {e : RecordError}
      (h : files.ReadingFault (Document.toList? Document.toText?) task.errors e) :
      ListFault task files e
  /-- An expression compiles, and those before it do not. -/
  | compiled {before after : List String} {expression : String} {p : Path}
      (h : task.Lists files (before ++ expression :: after)) (hbefore : ∀ b ∈ before, Rejected b)
      (hp : compile Context.standard expression = .ok p) :
      ListFault task files (.compiled expression)

/-- What is asked of an expression. -/
def reject (expression : String) : Except RecordError Unit :=
  match compile Context.standard expression with
  | .ok _ => throw (.compiled expression)
  | .error _ => return ()

theorem reject_eq_ok_iff {expression : String} : reject expression = .ok () ↔
    Rejected expression := by
  rw [reject, Rejected]
  cases compile Context.standard expression <;> simp [throw, throwThe, MonadExceptOf.throw, pure,
    Except.pure]

theorem reject_eq_error_iff {expression : String} {e : RecordError} :
    reject expression = .error e ↔
      (∃ p, compile Context.standard expression = .ok p) ∧ e = .compiled expression := by
  rw [reject]
  cases compile Context.standard expression <;> simp [throw, throwThe, MonadExceptOf.throw, pure,
    Except.pure, eq_comm]

theorem Lists.rejectMalformed_eq {expressions : List String} (h : task.Lists files expressions) :
    task.rejectMalformed files =
      (expressions.forM reject >>= fun _ => .ok expressions.length) := by
  rw [rejectMalformed, readFile_eq_ok_iff.2 h]
  rfl

/-- **The list is accepted** when none of its expressions compiles. -/
theorem rejectMalformed_eq_ok_iff {n : Nat} : task.rejectMalformed files = .ok n ↔
    ∃ expressions, task.Lists files expressions ∧ (∀ x ∈ expressions, Rejected x) ∧
      n = expressions.length := by
  constructor
  · intro h
    have hread := h
    rw [rejectMalformed] at hread
    obtain ⟨expressions, hlist, -⟩ := bind_eq_ok_iff.1 hread
    replace hlist : task.Lists files expressions := readFile_eq_ok_iff.1 hlist
    rw [hlist.rejectMalformed_eq] at h
    obtain ⟨⟨⟩, hall, h⟩ := bind_eq_ok_iff.1 h
    cases h
    exact ⟨expressions, hlist, fun x hx => reject_eq_ok_iff.1 (forM_eq_ok_iff.1 hall x hx), rfl⟩
  · rintro ⟨expressions, hlist, hall, rfl⟩
    rw [hlist.rejectMalformed_eq, forM_eq_ok fun x hx => reject_eq_ok_iff.2 (hall x hx)]
    rfl

/-- **The list is refused** for the first expression that compiles. -/
theorem rejectMalformed_eq_error_iff {e : RecordError} :
    task.rejectMalformed files = .error e ↔ task.ListFault files e := by
  constructor
  · intro h
    have hread := h
    rw [rejectMalformed, bind_eq_error_iff] at hread
    rcases hread with hread | ⟨expressions, hlist, -⟩
    · exact .list (readFile_eq_error_iff.1 hread)
    replace hlist : task.Lists files expressions := readFile_eq_ok_iff.1 hlist
    rw [hlist.rejectMalformed_eq, bind_eq_error_iff] at h
    rcases h with h | ⟨_, _, h⟩
    · obtain ⟨before, x, after, rfl, hbefore, hx⟩ := forM_eq_error_iff.1 h
      obtain ⟨⟨p, hp⟩, rfl⟩ := reject_eq_error_iff.1 hx
      exact .compiled hlist (fun b hb => reject_eq_ok_iff.1 (hbefore b hb)) hp
    · cases h
  · rintro (h | ⟨hlist, hbefore, hp⟩)
    · rw [rejectMalformed, bind_eq_error_iff]
      exact .inl (readFile_eq_error_iff.2 h)
    · rw [hlist.rejectMalformed_eq, bind_eq_error_iff, forM_eq_error_iff]
      exact .inl ⟨_, _, _, rfl, fun b hb => reject_eq_ok_iff.2 (hbefore b hb),
        reject_eq_error_iff.2 ⟨⟨_, hp⟩, rfl⟩⟩

/-! ### Verification -/

/-- **When verification succeeds, and what it reports otherwise.**  A run that verifies succeeds
exactly when the file of records holds nothing but records that the document confirms, and the list
of expressions none that compiles without descendant steps; it counts both.  Otherwise it reports
the first fault among the records, whatever comes after it, and only where there is none the first
fault with the list. -/
theorem run_verification (hverify : task.generate = false) (files : Files) :
    (∀ counts, (task.run files).result = .ok counts ↔
      ∃ records expressions, task.Verified files records ∧ task.Lists files expressions ∧
        (∀ x ∈ expressions, Rejected x) ∧ counts = ⟨0, records.length, expressions.length⟩) ∧
    ∀ e, (task.run files).result = .error e ↔
      task.RecordsFault files e ∨
        (∃ records, task.Verified files records) ∧ task.ListFault files e := by
  have hrun : (task.run files).result = (task.verify files >>= fun verified =>
      task.rejectMalformed files >>= fun rejected => .ok ⟨0, verified, rejected⟩) := by
    rw [run, if_neg (by rw [hverify]; decide)]
    rfl
  rw [hrun]
  constructor
  · intro counts
    simp only [bind_eq_ok_iff, verify_eq_ok_iff, rejectMalformed_eq_ok_iff, Except.ok.injEq]
    constructor
    · rintro ⟨_, ⟨records, hrecords, rfl⟩, _, ⟨expressions, hlist, hall, rfl⟩, rfl⟩
      exact ⟨records, expressions, hrecords, hlist, hall, rfl⟩
    · rintro ⟨records, expressions, hrecords, hlist, hall, rfl⟩
      exact ⟨_, ⟨records, hrecords, rfl⟩, _, ⟨expressions, hlist, hall, rfl⟩, rfl⟩
  · intro e
    simp only [bind_eq_error_iff, verify_eq_ok_iff, verify_eq_error_iff,
      rejectMalformed_eq_error_iff]
    constructor
    · rintro (h | ⟨_, ⟨records, hrecords, rfl⟩, h | ⟨_, _, h⟩⟩)
      · exact .inl h
      · exact .inr ⟨⟨records, hrecords⟩, h⟩
      · cases h
    · rintro (h | ⟨⟨records, hrecords⟩, h⟩)
      · exact .inl h
      · exact .inr ⟨_, ⟨records, hrecords, rfl⟩, .inl h⟩

/-- A task of verification. -/
def verifyingTask : RecordTask :=
  ⟨"data.json", "queries.json", "expected.jsonl", "errors.json", false⟩

/-- Files for the task: the document has an integer under its key, and a text follows the one
record. -/
def verifyingFiles (n : Int64) (r : QueryRecord) (rest : String) : Files where
  texts := [("data.json", (Json.object [("a", .number (.ofInt64 n))]).text),
    ("errors.json", "[\"..a\"]"), ("expected.jsonl", String.ofList (r.line ++ rest.toList))]
  directories := []

theorem legible_ofInt64 (n : Int64) : (Json.number (.ofInt64 n)).Legible :=
  .number (Json.Number.readsBack_integer _ _)

theorem reads_verifyingFiles (n : Int64) {r : QueryRecord} (hr : ∀ j ∈ r.results, j.Legible)
    (hfits : r.Fits) {rest : String} {complete : Bool}
    (hrest : StreamOf QueryRecord.ofDocument? rest.toList [] complete) :
    verifyingTask.Reads (verifyingFiles n r rest) (.object [("a", .number (.ofInt64 n))]) [r]
      complete := by
  constructor
  · have hlegible : (Json.object [("a", .number (.ofInt64 n))]).Legible :=
      .object (List.pairwise_singleton _ _) (List.forall_mem_singleton.2 (legible_ofInt64 n))
    have hparse := hlegible.parse?_text
    rw [if_pos (by simp [Json.depth, Json.depthMembers, Json.nestingLimit])] at hparse
    exact ⟨_, rfl, hparse⟩
  · obtain ⟨d, hd, hmeans⟩ := QueryRecord.exists_readAs hr
    rw [if_pos hfits] at hmeans
    refine ⟨_, rfl, ?_⟩
    rw [String.toList_ofList, QueryRecord.line, documentLine, List.append_assoc,
      List.singleton_append]
    exact hd.streamOf_value hmeans hrest

theorem lists_verifyingFiles (n : Int64) (r : QueryRecord) (rest : String) :
    verifyingTask.Lists (verifyingFiles n r rest) ["..a"] := by
  have hread := Json.readAs_array (.cons (Json.readAs_string "..a") .nil)
  refine ⟨_, rfl, ?_⟩
  rw [show "[\"..a\"]".toList = (Json.array [.string "..a"]).write from rfl, hread.parse?_write]
  rfl

/-- A record that is confirmed, with an expression that needs descendant steps, and a record that is
not, with something after it that cannot be read. -/
theorem run_verification_in_order :
    let one : Json := .number (.ofInt64 1)
    let two : Json := .number (.ofInt64 2)
    verifyingTask.generate = false ∧
    (verifyingTask.run (verifyingFiles 1 ⟨"x", ".a", [one]⟩ "")).result = .ok ⟨0, 1, 1⟩ ∧
    (verifyingTask.run (verifyingFiles 1 ⟨"x", ".a", [two]⟩ "oops")).result =
      .error (.mismatch "x" [two] [one]) := by
  intro one two
  have hp : compile commandContext ".a" = .ok ⟨".a", [⟨.child (.name "a"), none⟩]⟩ := rfl
  have hresults : queryResults ⟨".a", [⟨.child (.name "a"), none⟩]⟩ (.object [("a", one)]) =
      [one] := by
    rw [queryResults_child]
    exact congrArg (fun v => [Json.ofValue v]) (Value.ofInteger_toInt 1)
  have hfits : ∀ n : Int64, QueryRecord.Fits ⟨"x", ".a", [.number (.ofInt64 n)]⟩ := fun n =>
    List.forall_mem_singleton.2 (Nat.zero_le _)
  have hlegible : ∀ n : Int64, ∀ j ∈ [Json.number (.ofInt64 n)], j.Legible := fun n =>
    List.forall_mem_singleton.2 (legible_ofInt64 n)
  refine ⟨rfl, ?_, ?_⟩
  · refine ((run_verification rfl _).1 _).2 ⟨[_], ["..a"], ⟨_, reads_verifyingFiles 1 (hlegible 1)
      (hfits 1) (.finished rfl), List.forall_mem_singleton.2 ⟨_, hp, ?_⟩⟩,
      lists_verifyingFiles _ _ _, List.forall_mem_singleton.2 ⟨_, rfl⟩, rfl⟩
    rw [hresults]
    rfl
  · refine ((run_verification rfl _).2 _).2 (.inl (.record (reads_verifyingFiles 1 (hlegible 2)
      (hfits 2) (.malformed (by decide) rfl)) (List.forall_mem_nil _) ?_))
    have hfault : ¬(Json.array [one]).Equivalent (.array [two]) → QueryRecord.Fault
        (.object [("a", one)]) ⟨"x", ".a", [two]⟩ (.mismatch "x" [two] [one]) := by
      rw [← hresults]
      exact QueryRecord.Fault.mismatch (r := ⟨"x", ".a", [two]⟩) hp
    exact hfault (by simp [Json.Equivalent, Json.mapNumbers, Json.mapNumbersOfItems,
      Json.Number.dropZeroSign, Json.Number.ofInt64, one, two])

end RecordTask

end TreePath
