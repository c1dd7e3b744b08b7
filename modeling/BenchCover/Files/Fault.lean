/-!
# Faults of files

Why a file or a directory cannot be opened, read or written, with the words and the numbers that
operating systems have for it.
-/

namespace BenchCover

inductive FileFault where
  | noSuchFile
  | permissionDenied
  | notADirectory
  | isADirectory
  | noSpaceLeft
  | nameTooLong
  | tooManyLinks
  | nulInName
  | notText
  deriving DecidableEq, Repr

def FileFault.message : FileFault → String
  | noSuchFile => "No such file or directory (os error 2)"
  | permissionDenied => "Permission denied (os error 13)"
  | notADirectory => "Not a directory (os error 20)"
  | isADirectory => "Is a directory (os error 21)"
  | noSpaceLeft => "No space left on device (os error 28)"
  | nameTooLong => "File name too long (os error 36)"
  | tooManyLinks => "Too many levels of symbolic links (os error 40)"
  | nulInName => "file name contained an unexpected NUL byte"
  | notText => "stream did not contain valid UTF-8"

end BenchCover
