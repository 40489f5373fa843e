/-! The version that the program tells of itself. -/
namespace TagTemplate

def releaseVersion : String := "0.1.0"

/-- The version told: that of the release where it is installed as a package, and none otherwise. -/
def toolVersion (installed : Bool) : String :=
  if installed then releaseVersion else "0.0.0"

end TagTemplate
