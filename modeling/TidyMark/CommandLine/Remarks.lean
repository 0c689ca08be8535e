import TidyMark.Render.Report

/-!
# Remarks

What is told about a rendering beside its result: a line for each link, image and badge, and how
many there are. Tabs divide a line.
-/

namespace TidyMark

def Link.line (l : Link) : Text :=
  "link\t" ++ l.href ++ "\n"

def Image.line (i : Image) : Text :=
  "image\t" ++ i.src ++ "\t" ++ i.alt ++ "\n"

def Badge.line (b : Badge) : Text :=
  "badge\t" ++ b.href ++ "\t" ++ b.src ++ "\n"

namespace Report

def countLine (r : Report) : Text :=
  Text.ofNat r.links.length ++ " links, " ++ Text.ofNat r.images.length ++ " images, " ++
    Text.ofNat r.badges.length ++ " badges\n"

def remarks (r : Report) : Text :=
  r.links.flatMap Link.line ++ r.images.flatMap Image.line ++ r.badges.flatMap Badge.line ++
    r.countLine

end Report

end TidyMark
