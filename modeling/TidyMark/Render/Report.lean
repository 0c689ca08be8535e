import TidyMark.Text.Basic

/-!
# Reports

What a rendering says about the document beside its text: the links, the images and the badges,
each in the order in which they were found. A badge is an image that a link is made of, or an image
whose address speaks of a badge.
-/

namespace TidyMark

structure Link where
  href : Text
  title : Text
deriving DecidableEq

structure Image where
  alt : Text
  src : Text
  title : Text
deriving DecidableEq

structure Badge where
  alt : Text
  src : Text
  href : Text
deriving DecidableEq

/-- What was found on the way. -/
structure Report where
  links : List Link := []
  images : List Image := []
  badges : List Badge := []
deriving DecidableEq

namespace Report

def addLink (r : Report) (link : Link) : Report :=
  { r with links := r.links ++ [link] }

def addImage (r : Report) (image : Image) : Report :=
  { r with images := r.images ++ [image] }

def addBadge (r : Report) (badge : Badge) : Report :=
  { r with badges := r.badges ++ [badge] }

end Report

end TidyMark
