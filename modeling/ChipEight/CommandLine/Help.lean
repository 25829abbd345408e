/-
What the program says about its own use.
-/

namespace ChipEight.CommandLine

def usage : String :=
  "usage: chipemu [-h] [--scale SCALE] [--clock CLOCK] [--tone TONE]\n"
    ++ "               [--key-wait \x7blast,lowest\x7d] [--threaded]\n"
    ++ "               [--log-level \x7bDEBUG,INFO,WARNING,ERROR\x7d]\n"
    ++ "               rom\n"

def help : String :=
  usage
    ++ "\n"
    ++ "CHIP-8 interpreter\n"
    ++ "\n"
    ++ "positional arguments:\n"
    ++ "  rom                   Path to CHIP-8 ROM\n"
    ++ "\n"
    ++ "options:\n"
    ++ "  -h, --help            show this help message and exit\n"
    ++ "  --scale SCALE         Pixel scale factor (default 15)\n"
    ++ "  --clock CLOCK         CPU clock in instructions per second (default 500)\n"
    ++ "  --tone TONE           Beep tone frequency in Hz\n"
    ++ "  --key-wait \x7blast,lowest\x7d\n"
    ++ "                        Which key Fx0A takes when several are held (default:\n"
    ++ "                        last, the legacy scan order)\n"
    ++ "  --threaded            Run the machine on a worker thread\n"
    ++ "  --log-level \x7bDEBUG,INFO,WARNING,ERROR\x7d\n"
    ++ "                        Logging verbosity (default WARNING)\n"

end ChipEight.CommandLine
