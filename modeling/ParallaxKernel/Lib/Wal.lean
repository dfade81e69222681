import Mathlib.Data.List.Basic

/-!
# Databases with a write-ahead log

A database file and the transactions that are committed in its log. Its content is the file with
the log laid over it. A checkpoint moves transactions from the log to the file and leaves the
content as it is; what lies between the file and the content on the way is the subject of
`Throughout`.
-/

namespace ParallaxKernel.Lib.Wal

variable {Page : Type} [Inhabited Page]

/-- A committed transaction: the pages that it writes and the length of the file after it. -/
structure Commit (Page : Type) where
  frames : List (Nat × Page)
  size : Nat
  deriving DecidableEq

/-- Writes a page, beyond the end after filling pages. -/
def writeFrame (file : List Page) (frame : Nat × Page) : List Page :=
  if frame.1 < file.length then file.set frame.1 frame.2
  else file ++ List.replicate (frame.1 - file.length) default ++ [frame.2]

def Commit.apply (file : List Page) (c : Commit Page) : List Page :=
  (c.frames.foldl writeFrame file).take c.size

/-- A file with a log laid over it. -/
def overlay (file : List Page) (log : List (Commit Page)) : List Page := log.foldl Commit.apply file

/-- A database on disk. -/
structure Disk (Page : Type) where
  main : List Page
  log : List (Commit Page)
  deriving DecidableEq

/-- What a connection reads. -/
def Disk.effective (d : Disk Page) : List Page := overlay d.main d.log

/-- A checkpoint of the whole log. -/
def Disk.truncate (d : Disk Page) : Disk Page := ⟨d.effective, []⟩

/-- What other connections do: commit, or move the first transactions of the log to the file. -/
inductive Event (Page : Type) where
  | commit (c : Commit Page)
  | checkpoint (n : Nat)
  deriving DecidableEq

def Event.apply (d : Disk Page) : Event Page → Disk Page
  | .commit c => { d with log := d.log ++ [c] }
  | .checkpoint n => ⟨overlay d.main (d.log.take n), d.log.drop n⟩

def commitsOf (events : List (Event Page)) : List (Commit Page) :=
  events.filterMap fun
    | .commit c => some c
    | .checkpoint _ => none

variable {d : Disk Page} {file : List Page} {log log' : List (Commit Page)}

@[simp] theorem overlay_nil : overlay file [] = file := rfl

@[simp] theorem overlay_cons {c : Commit Page} :
    overlay file (c :: log) = overlay (c.apply file) log := rfl

@[simp] theorem overlay_append : overlay file (log ++ log') = overlay (overlay file log) log' :=
  List.foldl_append

@[simp] theorem effective_truncate : d.truncate.effective = d.effective := rfl

theorem effective_checkpoint (n : Nat) :
    (Event.apply d (.checkpoint n)).effective = d.effective := by
  rw [Disk.effective, Disk.effective, Event.apply, ← overlay_append, List.take_append_drop]

omit [Inhabited Page] in
theorem commitsOf_append (events events' : List (Event Page)) :
    commitsOf (events ++ events') = commitsOf events ++ commitsOf events' :=
  List.filterMap_append

theorem effective_commit (c : Commit Page) :
    (Event.apply d (.commit c)).effective = c.apply d.effective := by
  simp [Disk.effective, Event.apply]

/-- Events change the content by their commits. -/
theorem effective_events (events : List (Event Page)) :
    (events.foldl Event.apply d).effective = overlay d.effective (commitsOf events) := by
  induction events generalizing d with
  | nil => rfl
  | cons event events ih =>
    rw [List.foldl_cons, ih]
    cases event with
    | commit c => rw [effective_commit]; rfl
    | checkpoint n => rw [effective_checkpoint]; rfl

/-- A property of the file and of every content on the way to the content of the database. -/
def Throughout (P : List Page → Prop) (d : Disk Page) : Prop :=
  ∀ n, P (overlay d.main (d.log.take n))

section Throughout

variable {P : List Page → Prop}

theorem Throughout.main (h : Throughout P d) : P d.main := h 0

theorem Throughout.effective (h : Throughout P d) : P d.effective := by
  have heff := h d.log.length
  rwa [List.take_length] at heff

theorem Throughout.truncate (h : Throughout P d) : Throughout P d.truncate := by
  intro n
  rw [Disk.truncate, List.take_nil]
  exact h.effective

theorem Throughout.commit {c : Commit Page} (h : Throughout P d) (hc : P (c.apply d.effective)) :
    Throughout P (Event.apply d (.commit c)) := by
  intro n
  rw [Event.apply]
  by_cases hn : n ≤ d.log.length
  · rw [List.take_append_of_le_length hn]
    exact h n
  · rw [List.take_of_length_le (by simp; omega), overlay_append]
    exact hc

theorem Throughout.checkpoint (h : Throughout P d) (n : Nat) :
    Throughout P (Event.apply d (.checkpoint n)) := by
  intro k
  rw [Event.apply, ← overlay_append, ← List.take_add]
  exact h (n + k)

/-- Events keep a property that their commits keep. -/
theorem Throughout.events {events : List (Event Page)} {rest : List (Commit Page)}
    (h : Throughout P d) (hcommits : Throughout P ⟨d.effective, commitsOf events ++ rest⟩) :
    Throughout P (events.foldl Event.apply d) ∧
      Throughout P ⟨(events.foldl Event.apply d).effective, rest⟩ := by
  induction events generalizing d with
  | nil => exact ⟨h, hcommits⟩
  | cons event events ih =>
    rw [List.foldl_cons]
    cases event with
    | commit c =>
      refine ih (h.commit (hcommits 1)) ?_
      rw [effective_commit]
      exact fun n => hcommits (n + 1)
    | checkpoint n =>
      refine ih (h.checkpoint n) ?_
      rw [effective_checkpoint]
      exact hcommits

end Throughout

end ParallaxKernel.Lib.Wal
