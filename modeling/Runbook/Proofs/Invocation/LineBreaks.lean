import Mathlib
import Runbook.Proofs.Invocation.Comments

/-!
# How lines are ended does not matter

`Text.withFeeds` writes every line end of a text as a line feed. A script with its line ends written
so is read as the script itself, byte positions apart: the same steps in the same lines, or the same
defect at the same line and column (`parse_withFeeds`).

The induction is over the lines of the text (`lineBreak_induction`). A line break leads to the next
line whichever its characters are, so the lines before and after it are read alike
(`unplacedReading_lineBreak`).
-/

namespace Runbook

namespace Text

/-! ## Writing line ends as line feeds -/

/-- The text with a line feed for every carriage return that has its line feed, and for every other
carriage return. -/
def withFeeds : List Char → List Char
  | [] => []
  | '\r' :: '\n' :: cs => '\n' :: withFeeds cs
  | c :: cs => (if c = '\r' then '\n' else c) :: withFeeds cs

theorem withFeeds_cons {c : Char} {cs : List Char} (h : c = '\r' → cs.head? ≠ some '\n') :
    withFeeds (c :: cs) = (if c = '\r' then '\n' else c) :: withFeeds cs := by
  rw [withFeeds.eq_3]
  rintro _ hc rfl
  exact h hc rfl

theorem withFeeds_append {a : List Char} (ha : SingleLine a) (rest : List Char) :
    withFeeds (a ++ rest) = a ++ withFeeds rest := by
  induction a with
  | nil => rfl
  | cons c a ih =>
    obtain ⟨⟨hreturn, -⟩, ha⟩ := singleLine_cons.1 ha
    rw [List.cons_append, withFeeds_cons fun h => absurd h hreturn, if_neg hreturn, ih ha,
      List.cons_append]

theorem withFeeds_of_singleLine {cs : List Char} (h : SingleLine cs) : withFeeds cs = cs := by
  have := withFeeds_append h []
  rwa [List.append_nil, withFeeds, List.append_nil] at this

theorem withFeeds_lineBreak {a w b : List Char} (ha : SingleLine a) (h : LineBreak a w b) :
    withFeeds (a ++ (w ++ b)) = a ++ (['\n'] ++ withFeeds b) := by
  rw [withFeeds_append ha]
  refine congrArg (a ++ ·) ?_
  cases h with
  | feed => rfl
  | returnFeed => rfl
  | carriageReturn hhead => exact withFeeds_cons fun _ => hhead

example : withFeeds "a\r\r\nb\n\rc\r\n".toList = "a\n\nb\n\nc\n".toList := by decide

end Text

open Text

/-! ## Reading up to byte positions -/

namespace Invocation

/-- What is read around a line break is told by what is read before it and behind it, up to byte
positions, and not by what the break is made of. -/
theorem unplacedReading_lineBreak {a w w' b b' : List Char} (h : LineBreak a w b)
    (h' : LineBreak a w' b')
    (hb : unplacedReading (ofChars b) = unplacedReading (ofChars b')) :
    unplacedReading (ofChars (a ++ (w ++ b))) = unplacedReading (ofChars (a ++ (w' ++ b'))) := by
  rw [ofChars_lineBreak h, ofChars_lineBreak h']
  cases ofChars a with
  | error e => rfl
  | ok first =>
    refine (unplacedReading_behind _ _ _ _).trans ?_
    rw [hb]
    exact (unplacedReading_behind _ _ _ _).symm

end Invocation

/-- Which characters end the lines of a script shows in byte positions only: with a line feed for
every line end, the same steps with the same arguments are read from the same lines, or the script
is refused for the same fault, lexeme or name at the same line and column. -/
theorem parse_withFeeds (source : String) :
    unplacedReading (parse (String.ofList (withFeeds source.toList))) =
      unplacedReading (parse source) := by
  unfold parse
  rw [String.toList_ofList]
  induction source.toList using lineBreak_induction with
  | single cs hcs => rw [withFeeds_of_singleLine hcs]
  | lineBreak a w b ha hbreak ih =>
    have hfeed : LineBreak a ['\n'] (withFeeds b) :=
      .feed fun hlast => (ha '\r' (List.mem_of_getLast? hlast)).1 rfl
    rw [withFeeds_lineBreak ha hbreak]
    exact Invocation.unplacedReading_lineBreak hfeed hbreak ih

end Runbook
