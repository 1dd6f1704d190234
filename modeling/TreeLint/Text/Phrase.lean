namespace TreeLint.Text

def spaced : List String → String
  | [] => ""
  | [t] => t
  | t :: rest => t ++ " " ++ spaced rest

def phrase (texts : List String) : String :=
  spaced (texts.filter (· ≠ ""))

theorem spaced_cons {t : String} {rest : List String} (h : rest ≠ []) :
    spaced (t :: rest) = t ++ " " ++ spaced rest := by
  cases rest with
  | nil => exact absurd rfl h
  | cons _ _ => rfl

theorem phrase_cons_empty (rest : List String) : phrase ("" :: rest) = phrase rest := by
  simp [phrase]

end TreeLint.Text
