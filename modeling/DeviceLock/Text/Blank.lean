namespace DeviceLock.Text

/-- The Unicode property White_Space. -/
def isBlank (c : Char) : Bool :=
  let n := c.toNat
  (9 ≤ n && n ≤ 13) || n == 0x20 || n == 0x85 || n == 0xA0 || n == 0x1680 ||
    (0x2000 ≤ n && n ≤ 0x200A) || n == 0x2028 || n == 0x2029 || n == 0x202F || n == 0x205F ||
    n == 0x3000

def trimStart (s : List Char) : List Char := s.dropWhile isBlank

def trimEnd (s : List Char) : List Char := (s.reverse.dropWhile isBlank).reverse

def trim (s : List Char) : List Char := trimEnd (trimStart s)

theorem trimStart_append_of_blank {pad s : List Char} (h : ∀ c ∈ pad, isBlank c = true) :
    trimStart (pad ++ s) = trimStart s := by
  induction pad with
  | nil => rfl
  | cons c pad ih =>
    have hc := h c (by simp)
    simp only [trimStart, List.cons_append, List.dropWhile_cons, hc, if_true]
    exact ih fun d hd => h d (by simp [hd])

theorem trimEnd_append_of_blank {pad s : List Char} (h : ∀ c ∈ pad, isBlank c = true) :
    trimEnd (s ++ pad) = trimEnd s := by
  have hr : ∀ c ∈ pad.reverse, isBlank c = true := fun c hc => h c (by simpa using hc)
  have hd : trimStart (pad.reverse ++ s.reverse) = trimStart s.reverse :=
    trimStart_append_of_blank hr
  simpa [trimEnd, trimStart] using hd

end DeviceLock.Text
