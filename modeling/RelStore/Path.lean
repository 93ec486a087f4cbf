/-
Paths on a disk.

* `Path` — the names from the root down, none of them empty or special;
* `Path.text` — the names with slashes between them;
* `Path.names` — the names in a path text, empty and special ones included;
* `Path.beside` — the text of a file in the directory of another one;
* `Path.names_text` — the names of a path are read back from its text.
-/

namespace RelStore

/-- The names from the root of a disk down to a file or a directory. -/
abbrev Path := List String

namespace Path

/-- The text of a path below the root. -/
def text : Path → String
  | [] => ""
  | [name] => name
  | name :: rest => name ++ "/" ++ text rest

/-- The pieces of a list of characters between the separators. -/
def pieces (separator : Char) : List Char → List (List Char)
  | [] => [[]]
  | c :: cs =>
    if c = separator then [] :: pieces separator cs
    else
      match pieces separator cs with
      | [] => [[c]]
      | piece :: rest => (c :: piece) :: rest

/-- The names in a path text. -/
def names (s : String) : List String :=
  (pieces '/' s.toList).map String.ofList

/-- Some names without the empty ones at the end, which stand for slashes after the last name. -/
def trimmed (names : List String) : List String :=
  (names.reverse.dropWhile (· = "")).reverse

/-- Whether a name is that of a file or a directory. The empty one and a point stand for the directory before
them, and two points for the one above. -/
def isProper (name : String) : Bool :=
  name != "" && name != "." && name != ".."

/-- Whether a path text is meant from the root of all places. -/
def isAbsolute (s : String) : Bool :=
  s.toList.head? == some '/'

/-- The text of a file in the directory of another one. An absolute text is meant as it is. -/
def beside (s file : String) : String :=
  if isAbsolute file then file
  else
    match (names s).dropLast with
    | [] => file
    | above => text above ++ "/" ++ file

theorem pieces_of_not_mem {c : Char} {cs : List Char} (h : c ∉ cs) : pieces c cs = [cs] := by
  induction cs with
  | nil => rfl
  | cons d cs ih =>
    simp only [List.mem_cons, not_or] at h
    simp [pieces, Ne.symm h.1, ih h.2]

theorem pieces_append_cons {c : Char} {cs : List Char} (h : c ∉ cs) (rest : List Char) :
    pieces c (cs ++ c :: rest) = cs :: pieces c rest := by
  induction cs with
  | nil => simp [pieces]
  | cons d cs ih =>
    simp only [List.mem_cons, not_or] at h
    simp [pieces, Ne.symm h.1, ih h.2]

/-- The names of a path are read back from its text, if no name holds a slash. -/
theorem names_text {p : Path} (hne : p ≠ []) (h : ∀ name ∈ p, '/' ∉ name.toList) :
    names (text p) = p := by
  induction p with
  | nil => exact absurd rfl hne
  | cons name rest ih =>
    have hname := h name List.mem_cons_self
    cases rest with
    | nil => simp [text, names, pieces_of_not_mem hname]
    | cons next rest =>
      have ih := ih (by simp) (fun n hn => h n (List.mem_cons_of_mem _ hn))
      simp only [names] at ih ⊢
      simp only [text, String.toList_append]
      rw [List.append_assoc, show "/".toList ++ _ = '/' :: _ from rfl,
        pieces_append_cons hname]
      simp [ih]

end Path

end RelStore
