import AppHost.File.Error
import AppHost.Memory.Error
/-! Why an object cannot be loaded or linked. -/
namespace AppHost

inductive Malformation where
  | magic
  | unparsable
  | fileSizeAboveMemorySize
  | symbolName
  | relocationSymbol
  | relativeAddend
  | localSymbol
  | relocationTarget
  | dataAboveSegment
  | segmentWraps
  | segmentAlignment
  | exportOutside
  deriving DecidableEq, Repr

def Malformation.text : Malformation → String
  | .magic => "bad magic"
  | .unparsable => "parse error"
  | .fileSizeAboveMemorySize => "filesz larger than memsz"
  | .symbolName => "symbol name"
  | .relocationSymbol => "relocation symbol index"
  | .relativeAddend => "relative addend outside loaded segments"
  | .localSymbol => "local symbol outside loaded segments"
  | .relocationTarget => "relocation target outside loaded segments"
  | .dataAboveSegment => "file bytes exceed segment size"
  | .segmentWraps => "segment wraps"
  | .segmentAlignment => "segment alignment"
  | .exportOutside => "export outside loaded segments"

inductive Unhandled where
  | bigEndian
  | machine
  | fileType
  | noSegments
  deriving DecidableEq, Repr

def Unhandled.text : Unhandled → String
  | .bigEndian => "not little endian"
  | .machine => "unexpected machine"
  | .fileType => "not an executable or shared object"
  | .noSegments => "no PT_LOAD segments"

inductive LoadError where
  | linkAttempted
  | executableLoaded
  | unreadable (cause : FileError)
  | invalid (how : Malformation)
  | unsupported (what : Unhandled)
  | truncated
  | placement (cause : Memory.MapError)
  | access (cause : Memory.AccessError)
  | missingEntry
  | unresolvedSymbol (name : String)
  | unsupportedRelocation (code : UInt32)
  | linkFailed
  deriving DecidableEq, Repr

def LoadError.message : LoadError → String
  | .linkAttempted => "linking already attempted"
  | .executableLoaded => "executable already loaded"
  | .unreadable cause => "read failed: " ++ cause.message
  | .invalid how => "invalid object: " ++ how.text
  | .unsupported what => "unsupported feature: " ++ what.text
  | .truncated => "object truncated"
  | .placement cause => "segment placement failed: " ++ cause.message
  | .access cause => "image write failed: " ++ cause.message
  | .missingEntry => "entry point outside loaded segments"
  | .unresolvedSymbol name => "unresolved symbol `" ++ name ++ "`"
  | .unsupportedRelocation code => "unsupported relocation type " ++ toString code.toNat
  | .linkFailed => "dynamic linking failed"

end AppHost
