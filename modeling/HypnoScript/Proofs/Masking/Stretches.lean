/-
# A scan can be taken up again at any line

The scan looks at two characters at a time, and skips the second one of a mark or an escape.  A
newline is never the second one: whatever has been read in front of it, the scan goes on behind it
from the region that it has recorded there, and from nothing else (`Mask.scan_resume`).  That region
says all that has to be known about the text above.

* `Mask.of_resume`: a text is masked in two stretches, the second one from the last region of the
  first.
* `masked_resumes`: so it is masked line by line, each line on its own.
-/
import HypnoScript.Proofs.Masking.Lines

namespace HypnoScript
namespace Mask

variable (r : Region) (p s : Text)

/-- A mask with the mask of a further stretch behind it. -/
def append (m n : Mask) : Mask := ⟨m.text ++ n.text, m.regions ++ n.regions⟩

/-- A newline at the end records the region behind the text, in which a line comment has ended. -/
theorem scan_concat_newline :
    scan r (p ++ ['\n']) =
      ⟨(scan r p).text ++ ['\n'], (scan r p).regions ++ [(r.behind p).afterNewline]⟩ := by
  rw [scan_append_newline, scan_nil]

/-- **Behind a newline the scan is that of the rest**, from the region recorded there.  What has
been read in front of it counts for nothing else. -/
theorem scan_resume :
    scan r (p ++ ['\n'] ++ s) =
      (scan r (p ++ ['\n'])).append (scan (r.behind p).afterNewline s) := by
  rw [scan_concat_newline, append, List.append_assoc, List.singleton_append, scan_append_newline,
    List.append_assoc, List.append_assoc, List.singleton_append, List.singleton_append]

/-- A stretch behind a newline goes on with the mask of the text in front of it. -/
theorem of_resume :
    of (p ++ ['\n'] ++ s) =
      (of (p ++ ['\n'])).append (scan (Region.code.behind p).afterNewline s) :=
  congrArg (fun m : Mask => { m with regions := .code :: m.regions }) (scan_resume .code p s)

/-- The last region of a text that ends with a newline is that behind the text in front of it. -/
theorem getLast?_regions_of :
    (of (p ++ ['\n'])).regions.getLast? = some (Region.code.behind p).afterNewline := by
  have hregions : (of (p ++ ['\n'])).regions =
      (.code :: (scan .code p).regions) ++ [(Region.code.behind p).afterNewline] :=
    congrArg (fun m : Mask => Region.code :: m.regions) (scan_concat_newline .code p)
  rw [hregions, List.getLast?_concat]

end Mask

/-- **A scan can be taken up again at any line.**  The lines of the masked copy are the masked
copies of the lines, each scanned on its own from the region that the line above leaves behind; and
these regions, in which line comments have ended, are those that the scan of the whole text has
recorded.  Behind a prefix that ends with a newline the scan goes on from the last region of that
prefix, whatever else there is in it. -/
theorem masked_resumes :
    (∀ t : Text, Text.lines (masked t) = Mask.codeLines .code t.lines ∧
      (Mask.of t).regions = Mask.lineRegions .code t.lines) ∧
    ∀ p s : Text, ∃ r, (Mask.of (p ++ ['\n'])).regions.getLast? = some r ∧
      r = (Region.code.behind p).afterNewline ∧
      Mask.of (p ++ ['\n'] ++ s) = (Mask.of (p ++ ['\n'])).append (Mask.scan r s) := by
  constructor
  · intro t
    exact ⟨Mask.lines_scan .code t, Document.regions_ofText t⟩
  · intro p s
    exact ⟨_, Mask.getLast?_regions_of p, rfl, Mask.of_resume p s⟩

end HypnoScript
