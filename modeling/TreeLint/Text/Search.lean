namespace TreeLint.Text

def pieces (c : Char) : List Char → List (List Char)
  | [] => [[]]
  | x :: rest =>
    if x = c then [] :: pieces c rest
    else match pieces c rest with
      | [] => [[x]]
      | p :: more => (x :: p) :: more

def occursList (needle : List Char) : List Char → Bool
  | [] => needle.isEmpty
  | x :: rest => needle.isPrefixOf (x :: rest) || occursList needle rest

def occursIn (needle s : String) : Bool :=
  occursList needle.toList s.toList

def startsWith (start s : String) : Bool :=
  start.toList.isPrefixOf s.toList

def endsWith (ending s : String) : Bool :=
  ending.toList.isSuffixOf s.toList

theorem pieces_ne_nil (c : Char) (cs : List Char) : pieces c cs ≠ [] := by
  cases cs with
  | nil => simp [pieces]
  | cons x rest =>
    rw [pieces]
    split
    · simp
    · split <;> simp

theorem occursList_iff {needle cs : List Char} : occursList needle cs ↔ needle <:+: cs := by
  induction cs with
  | nil => simp [occursList]
  | cons x rest ih => simp [occursList, ih, List.infix_cons_iff]

end TreeLint.Text
